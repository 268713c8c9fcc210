import BisayaPlus.CommandLine
import BisayaPlus.Proofs.Blame
import BisayaPlus.Proofs.Lossless
import BisayaPlus.Proofs.Progress
import BisayaPlus.Proofs.ReportOrder
/-!
# Listings and runs agree

The tokens of a source can be listed, its tree can be shown, and it can be run.
All three scan it in the same way, and the last two read the same tokens. So a
listing reports what a run reports of reading the source, or its first part, and
the exit status of the command tells whether there was such a report.
-/

set_option autoImplicit false

namespace BisayaPlus

open Grammar

/-! ## Reports -/

/-- The reports of a source are those of its bytes, and then those of tokens that
the reader complained about. -/
theorem Program.sources_of_diagnostics (source : Text) :
    let p := ofSource source
    p.diagnostics = p.scanned.diagnostics ++ p.tokenDiagnostics ∧
    (∀ d ∈ p.scanned.diagnostics, ∃ s ∈ segments source, Scan.Quotes d s.bytes) ∧
    ∀ d ∈ p.tokenDiagnostics, ∃ c ∈ p.parsed.complaints, d = .ofSyntax c.fault c.token := by
  intro p
  refine ⟨rfl, fun d hd => ?_, fun d hd => ?_⟩
  · obtain ⟨s, hs, hd⟩ := List.mem_filterMap.1 hd
    refine ⟨s, hs, ?_⟩
    unfold Scan.Segment.diagnostic? at hd
    split at hd
    · obtain rfl := Option.some.inj hd
      exact ⟨rfl, rfl, _, rfl⟩
    · cases hd
  · obtain ⟨c, hc, rfl⟩ := List.mem_map.1 hd
    exact ⟨c, (List.mem_filter.1 hc).1, rfl⟩

namespace CommandLine

theorem status_listing {text : Text} {diagnostics : List Diagnostic} :
    (listing text diagnostics).status = 0 ↔ diagnostics = [] := by
  unfold listing
  split
  · next h => simpa using h
  · next h => simpa [syntaxStatus] using h

theorem status_listing_eq_syntaxStatus {text : Text} {diagnostics : List Diagnostic} :
    (listing text diagnostics).status = syntaxStatus ↔ diagnostics ≠ [] := by
  unfold listing
  split
  · next h => simpa [syntaxStatus] using h
  · next h => simpa using h

theorem statusOf_eq_syntaxStatus {outcome : Outcome} : statusOf outcome = syntaxStatus ↔ outcome = .syntaxError := by
  cases outcome <;> decide

/-! ## The command -/

/-- The arguments ask for something to be done with the program in a file, which
has this source, and they and the settings ask for logs of this level. -/
structure OnFile (s : Surroundings) (arguments : List Text) (i : Invocation) (level : Level) (source : Text) :
    Prop where
  invocation : Invocation.ofArguments (Settings.defaultPath s.home) arguments = .ok i
  level : ∃ settings, Settings.load s.read i.settings = .ok settings ∧
    Level.ofName? (if i.logLevel.isEmpty then settings.logLevel else i.logLevel) = some level
  source : ∃ path, i.operands = [path] ∧ s.read path = .ok source

/-- What is reported of a program when the command does what is asked of it. -/
def reports (s : Surroundings) (level : Level) (i : Invocation) (p : Program) : List Diagnostic :=
  if i.tokens then p.scanned.diagnostics
  else if i.tree then p.diagnostics
  else (p.run (Session.watchers level) s.rounds (Input.replies s.input)).reports

theorem OnFile.run {s : Surroundings} {arguments : List Text} {i : Invocation} {level : Level} {source : Text}
    (h : OnFile s arguments i level source) : ∃ path,
      let report := work s level i (Program.ofSource source)
      CommandLine.run s arguments = { report with shown := (running path).shown level s.stamp ++ report.shown } := by
  obtain ⟨settings, hload, hlevel⟩ := h.level
  obtain ⟨path, hoperands, hread⟩ := h.source
  refine ⟨path, ?_⟩
  unfold CommandLine.run perform
  dsimp only
  rw [h.invocation]
  dsimp only
  rw [hload]
  dsimp only
  have hsettings : (if i.logLevel.isEmpty then settings else { settings with logLevel := i.logLevel }).level? =
      some level := by
    rw [← hlevel]
    unfold Settings.level?
    split <;> rfl
  rw [hsettings]
  dsimp only
  rw [hoperands]
  dsimp only
  unfold fileCommand
  rw [hread]

/-- What a run reports is shown in this order. -/
theorem reports_sublist_shown (stamp : Text) (events : List Event) :
    ((events.filterMap Event.report?).map Diagnostic.shown).Sublist (events.flatMap (·.shown stamp)) := by
  induction events with
  | nil => exact List.Sublist.slnil
  | cons e more ih =>
    rw [List.flatMap_cons]
    cases e with
    | reported d => exact ih.cons_cons d.shown
    | printed _ | read _ | readFailed _ | logged _ => exact ih.trans (List.sublist_append_right _ _)

theorem reports_shown (s : Surroundings) (level : Level) (i : Invocation) (p : Program) :
    ((reports s level i p).map Diagnostic.shown).Sublist (work s level i p).shown := by
  unfold reports work
  split
  · exact List.sublist_append_left _ _
  · split
    · exact List.sublist_append_left _ _
    · exact reports_sublist_shown s.stamp _

theorem status_work (s : Surroundings) (level : Level) (i : Invocation) (source : Text) :
    (work s level i (.ofSource source)).status = syntaxStatus ↔
      ∃ d ∈ reports s level i (.ofSource source), d.phase = .reading := by
  -- in a listing, all reports are of reading
  have hlisting : ∀ {text : Text} {diagnostics : List Diagnostic},
      (∀ d ∈ diagnostics, d ∈ (Program.ofSource source).diagnostics) →
      ((listing text diagnostics).status = syntaxStatus ↔ ∃ d ∈ diagnostics, d.phase = .reading) := by
    intro text diagnostics hsub
    rw [status_listing_eq_syntaxStatus]
    constructor
    · intro hne
      obtain ⟨d, hd⟩ := List.exists_mem_of_ne_nil _ hne
      exact ⟨d, hd, Program.phase_of_mem_diagnostics (hsub d hd)⟩
    · rintro ⟨d, hd, -⟩
      exact List.ne_nil_of_mem hd
  unfold reports work
  split
  · exact hlisting fun d hd => List.mem_append_left _ hd
  · split
    · exact hlisting fun d hd => hd
    · exact statusOf_eq_syntaxStatus.trans (Program.concluded_run rfl).syntaxError_iff

end CommandLine

/-! ## The tokens that are parsed -/

/-- The tokens of a program are read as they are listed. A walk over them gives
its statements and complaints, and these hold no other tokens but the operators
of compound assignments. If nothing is reported, the statements are written with
exactly these tokens. -/
structure Program.Parses (p : Program) (tokens : List Token) : Prop where
  walk {budget : Nat} : 2 * tokens.length + 1 < budget → ∃ place < tokens.length,
    (Walk.program budget).run tokens ⟨0, 0, []⟩ =
      .done (p.statements, p.parsed.ended) ⟨place, 0, p.parsed.complaints⟩
  statements : ∀ s ∈ p.statements, s.WellFormed (· ∈ tokens) False false
  complaints : ∀ c ∈ p.parsed.complaints, c.token ∈ tokens
  grammar : p.accepted = true → IsProgram tokens p.statements

theorem Program.parses_tokens (source : Text) : (ofSource source).Parses (scan source).tokens where
  walk := Walk.run_program (Scan.endsOnce_tokens source)
  statements := ReadProgram.wellFormed_ofTokens (fun _ ht => ht) False.elim
  complaints c hc := by
    obtain ⟨placed, hplaced, -, htokens⟩ := ReadProgram.placed_ofTokens (Scan.endsOnce_tokens source)
    have hc : c ∈ placed.map (·.2) := hplaced ▸ hc
    obtain ⟨entry, hentry, rfl⟩ := List.mem_map.1 hc
    exact List.mem_of_getElem? (htokens entry hentry).2
  grammar h := by
    obtain ⟨statements, ended, rest, hreads⟩ := complaints_eq_nil_iff.1 (accepted_iff_faultless.1 h).2
    have hstatements : (ofSource source).statements = statements := statements_of_reads hreads
    rw [hstatements]
    exact program_of_reads (Scan.endsOnce_tokens source) hreads

/-! ## Agreement -/

open CommandLine in
/-- The tree of a source is shown exactly if a run does not refuse it, with the
reports that the run makes of reading it. Listing its tokens reports the first
part of these, the faults in the bytes, and so fails only where the others do.
The tokens that are listed are those that are parsed. The exit status of the
command tells if what it did with the source reported a fault of reading. -/
theorem entry_points_agree (source : Text) (watchers : Watchers) (rounds : Nat) (replies : List Reply) :
    let p := Program.ofSource source
    let run := p.run { watchers with reporter := true } rounds replies
    let found := run.reports.filter (·.phase = .reading)
    ((showTree p).status = 0 ↔ run.outcome ≠ .syntaxError) ∧
    (showTree p).shown = found.map Diagnostic.shown ++ [.out p.treeListing] ∧
    (∃ lexical others, found = lexical ++ others ∧
      (showTokens p).shown = lexical.map Diagnostic.shown ++ [.out p.tokenListing] ∧
      ((showTokens p).status = 0 ↔ lexical = []) ∧
      (∀ d ∈ lexical, ∃ s ∈ segments source, Scan.Quotes d s.bytes) ∧
      ∀ d ∈ others, ∃ c ∈ p.parsed.complaints, d = .ofSyntax c.fault c.token) ∧
    ((showTokens p).status ≠ 0 → (showTree p).status ≠ 0 ∧ run.outcome = .syntaxError) ∧
    (∃ tokens, p.tokenListing = tokens.flatMap (fun t => t.listed ++ [Text.lineFeed]) ∧ p.Parses tokens) ∧
    ∀ s arguments i level, OnFile s arguments i level source →
      ((CommandLine.run s arguments).status = syntaxStatus ↔ ∃ d ∈ reports s level i p, d.phase = .reading) ∧
      ((reports s level i p).map Diagnostic.shown).Sublist (CommandLine.run s arguments).shown := by
  intro p run found
  have hfound : found = p.diagnostics := Program.readingReports_run source rounds replies rfl
  obtain ⟨hsplit, hlexical, hothers⟩ := Program.sources_of_diagnostics source
  have htree : (showTree p).status = 0 ↔ run.outcome ≠ .syntaxError := by
    rw [showTree, status_listing, ← Program.accepted_iff, ne_eq, Program.outcome_eq_syntaxError_iff, Bool.not_eq_false]
  refine ⟨htree, by rw [hfound]; rfl, ?_, ?_, ⟨_, rfl, Program.parses_tokens source⟩, ?_⟩
  · exact ⟨_, _, hfound.trans hsplit, rfl, status_listing, hlexical, hothers⟩
  · intro hfails
    have hne : p.diagnostics ≠ [] := fun hnil => hfails (status_listing.2 (List.append_eq_nil_iff.1 hnil).1)
    have htreeFails : (showTree p).status ≠ 0 := fun hzero => hne (status_listing.1 hzero)
    exact ⟨htreeFails, Decidable.not_not.1 fun hout => htreeFails (htree.2 hout)⟩
  · intro s arguments i level h
    obtain ⟨path, hrun⟩ := h.run
    rw [hrun]
    exact ⟨status_work s level i source, (reports_shown s level i p).trans (List.sublist_append_right _ _)⟩

theorem ok_of_toOption {ε α : Type} {x : Except ε α} {a : α} (h : x.toOption = some a) : x = .ok a := by
  cases x with
  | error e => cases h
  | ok b => exact congrArg Except.ok (Option.some.inj h)

open CommandLine in
/-- A fault in the tokens is reported with the tree, and not with the tokens. -/
theorem entry_points_agree_on_file :
    let source : Text := "SUGOD\n)\nKATAPUSAN"
    let s : Surroundings :=
      { home := [], read := fun path => if path = [97] then .ok source else .error .absent, input := [], stamp := [],
        rounds := 0 }
    let i : Invocation := { settings := Settings.defaultPath [], operands := [[97]] }
    OnFile s ["-ast", [97]] { i with tree := true } .warning source ∧ (CommandLine.run s ["-ast", [97]]).status = 65 ∧
      OnFile s ["-tokens", [97]] { i with tokens := true } .warning source ∧
      (CommandLine.run s ["-tokens", [97]]).status ≠ 65 := by
  intro source s i
  have htree : OnFile s ["-ast", [97]] { i with tree := true } .warning source :=
    ⟨ok_of_toOption (by decide +kernel), ⟨{}, rfl, by decide +kernel⟩, [97], rfl, rfl⟩
  have htokens : OnFile s ["-tokens", [97]] { i with tokens := true } .warning source :=
    ⟨ok_of_toOption (by decide +kernel), ⟨{}, rfl, by decide +kernel⟩, [97], rfl, rfl⟩
  obtain ⟨-, -, -, -, -, hfile⟩ := entry_points_agree source {} 0 []
  have hfound : ∃ d ∈ reports s .warning { i with tree := true } (.ofSource source), d.phase = .reading := by
    decide +kernel
  have hclean : ¬∃ d ∈ reports s .warning { i with tokens := true } (.ofSource source), d.phase = .reading := by
    decide +kernel
  have hstatus := (hfile s _ _ _ htree).1
  have hstatus' := (hfile s _ _ _ htokens).1
  exact ⟨htree, hstatus.2 hfound, htokens, fun h => hclean (hstatus'.1 h)⟩

end BisayaPlus
