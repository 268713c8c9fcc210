import BisayaPlus.Proofs.Complaints
import BisayaPlus.Proofs.Outcomes
/-!
# What is reported of reading a program

The faults in the bytes are reported first and then those in the tokens, both
from the first line to the last. A line whose bytes are at fault gets no report
of its tokens. A statement is given up only with a complaint, and the line of
this complaint has a report, so that nothing is missing from a program that is
accepted.
-/

set_option autoImplicit false

namespace BisayaPlus

open TokenReader Grammar

/-! ## Lines -/

namespace Scan

open Text

theorem Segment.line_le_endLine (s : Segment) : s.line ≤ s.endLine := by
  unfold endLine
  split
  · exact Nat.le_add_right _ _
  · exact Nat.le_add_right _ _
  · exact Nat.le_refl _

theorem Segment.endLine_le_nextLine (s : Segment) : s.endLine ≤ s.nextLine := by
  unfold nextLine
  split
  · exact Nat.le_succ _
  · exact Nat.le_refl _

/-- The line counter never goes back. -/
theorem line_le_segmentsFrom {before : Before} {pos line : Nat} {t : Text} :
    ∀ s ∈ segmentsFrom before pos line t, line ≤ s.line := by
  fun_induction segmentsFrom before pos line t with
  | case1 before pos line => exact List.forall_mem_nil _
  | case2 before pos line b t found segment ih =>
    have hnext : line ≤ segment.nextLine := Nat.le_trans segment.line_le_endLine segment.endLine_le_nextLine
    exact List.forall_mem_cons.2 ⟨Nat.le_refl _, fun s hs => Nat.le_trans hnext (ih s hs)⟩

theorem pairwise_segmentsFrom (before : Before) (pos line : Nat) (t : Text) :
    (segmentsFrom before pos line t).Pairwise (·.nextLine ≤ ·.line) := by
  fun_induction segmentsFrom before pos line t with
  | case1 before pos line => exact .nil
  | case2 before pos line b t found segment ih => exact List.pairwise_cons.2 ⟨line_le_segmentsFrom, ih⟩

/-- The counter at the end is that of the last segment. -/
theorem endLine_le_lineAfter {parts : List Segment} (hparts : parts.Pairwise (·.nextLine ≤ ·.line)) (line : Nat)
    {s : Segment} (hs : s ∈ parts) : s.endLine ≤ lineAfter line parts := by
  obtain ⟨front, last, rfl⟩ := parts.eq_nil_or_concat.resolve_left (List.ne_nil_of_mem hs)
  rw [List.concat_eq_append] at hs hparts ⊢
  rw [lineAfter, List.getLast?_concat, Option.elim_some]
  rcases List.mem_append.1 hs with hs | hs
  · have hle := (List.pairwise_append.1 hparts).2.2 s hs last List.mem_cons_self
    have hend := s.endLine_le_nextLine
    have hlast := last.line_le_endLine
    have hnext := last.endLine_le_nextLine
    omega
  · obtain rfl := List.mem_singleton.1 hs
    exact s.endLine_le_nextLine

theorem Segment.line_of_token? {s : Segment} {t : Token} (h : s.token? = some t) : t.line = s.endLine := by
  unfold token? at h
  split at h
  · obtain rfl := Option.some.inj h
    rfl
  · cases h

theorem Segment.line_of_diagnostic? {s : Segment} {d : Diagnostic} (h : s.diagnostic? = some d) :
    d.line = s.endLine := by
  unfold diagnostic? at h
  split at h
  · obtain rfl := Option.some.inj h
    rfl
  · cases h

/-- What is made of the segments one by one, with the counter of each, has the
lines in order. -/
theorem pairwise_line_filterMap {α : Type} {make : Segment → Option α} {line : α → Nat}
    (h : ∀ s a, make s = some a → line a = s.endLine) (source : Text) :
    ((segments source).filterMap make).Pairwise (line · ≤ line ·) := by
  refine List.pairwise_filterMap.2 ((pairwise_segmentsFrom {} 0 1 source).imp fun {s s'} hle a ha a' ha' => ?_)
  rw [h s a ha, h s' a' ha']
  have hend := s.endLine_le_nextLine
  have hstart := s'.line_le_endLine
  omega

theorem pairwise_line_tokens (source : Text) : (scan source).tokens.Pairwise (·.line ≤ ·.line) := by
  refine List.pairwise_append.2 ⟨pairwise_line_filterMap (fun _ _ => Segment.line_of_token?) source,
    List.pairwise_singleton _ _, fun t ht last hlast => ?_⟩
  obtain rfl := List.mem_singleton.1 hlast
  obtain ⟨s, hs, heq⟩ := List.mem_filterMap.1 ht
  rw [Segment.line_of_token? heq]
  exact endLine_le_lineAfter (pairwise_segmentsFrom {} 0 1 source) 1 hs

theorem pairwise_line_diagnostics (source : Text) : (scan source).diagnostics.Pairwise (·.line ≤ ·.line) :=
  pairwise_line_filterMap (fun _ _ => Segment.line_of_diagnostic?) source

theorem endsOnce_tokens (source : Text) : EndsOnce (scan source).tokens := by
  obtain ⟨body, last, htokens, hlast, -, hbody⟩ := tokens_scan source
  exact ⟨body, last, htokens, hlast, fun t ht => (hbody t ht).1.ne_eof⟩

end Scan

/-! ## Statements that are tried -/

/-- `Tries part left reader ts`: on `ts`, the reader comes to read `part` from
`left` on. -/
inductive Tries {γ : Type} (part : TokenReader γ) (left : List Token) :
    {α : Type} → TokenReader α → List Token → Prop where
  | self : Tries part left part left
  | first {α β : Type} {r : TokenReader α} {f : α → TokenReader β} {ts : List Token} :
      Tries part left r ts → Tries part left (r >>= f) ts
  | next {α β : Type} {r : TokenReader α} {f : α → TokenReader β} {ts rest : List Token} {a : α}
      {noted : List Complaint} : r.run ts = .read a rest noted → Tries part left (f a) rest →
      Tries part left (r >>= f) ts
  | resumed {α : Type} {r : TokenReader α} {ts : List Token} : Tries part left r ts → Tries part left (orResume r) ts

theorem Reading.complaints_after {α : Type} (earlier : List Complaint) (r : Reading α) :
    (r.after earlier).complaints = earlier ++ r.complaints := by
  cases r <;> simp [Reading.after, Reading.complaints]

/-- No complaint is lost, wherever reading goes on. -/
theorem Tries.complaints_subset {α γ : Type} {part : TokenReader γ} {left ts : List Token} {r : TokenReader α}
    (h : Tries part left r ts) : (part.run left).complaints ⊆ (r.run ts).complaints := by
  induction h with
  | self => exact List.Subset.refl _
  | @first α β r f ts _ ih =>
    rw [run_bind]
    cases hr : r.run ts with
    | stuck complaint rest noted =>
      rw [hr] at ih
      exact ih
    | read a rest noted =>
      rw [hr] at ih
      dsimp only
      rw [Reading.complaints_after]
      exact List.Subset.trans ih (List.subset_append_left _ _)
  | next hr _ ih =>
    rw [run_bind, hr]
    dsimp only
    rw [Reading.complaints_after]
    exact List.Subset.trans ih (List.subset_append_right _ _)
  | @resumed α r ts _ ih =>
    rw [run_orResume]
    cases hr : r.run ts with
    | read a rest noted => rwa [hr] at ih
    | stuck complaint rest noted => rwa [hr] at ih

/-- A reading without complaints gives a value. -/
theorem Reading.read_of_complaints_nil {α : Type} {r : Reading α} (h : r.complaints = []) :
    ∃ a rest, r = .read a rest [] := by
  cases r with
  | read a rest noted =>
    obtain rfl : noted = [] := h
    exact ⟨a, rest, rfl⟩
  | stuck complaint rest noted => simp [Reading.complaints] at h

namespace Program

/-- Reading the program comes to read a statement from here on, within a budget
and inside some loops. -/
def TriesStatement (p : Program) (budget loops : Nat) (left : List Token) : Prop :=
  Tries (Stmt.readWithin budget loops) left (ReadProgram.readAll (2 * p.scanned.tokens.length + 3)) p.scanned.tokens

section Reports

variable {source : Text} {budget loops : Nat} {left : List Token}

theorem complaints_subset_of_tries (h : (ofSource source).TriesStatement budget loops left) :
    ((Stmt.readWithin budget loops).run left).complaints ⊆ (ofSource source).parsed.complaints := by
  have hall := h.complaints_subset
  rwa [← ReadProgram.complaints_ofTokens] at hall

/-- A line with a complaint has a report, if only of its bytes. -/
theorem exists_diagnostic_of_complaint {p : Program} {c : Complaint} (h : c ∈ p.parsed.complaints) :
    ∃ d ∈ p.diagnostics, d.line = c.token.line := by
  cases hreported : p.isReported c with
  | true =>
    refine ⟨.ofSyntax c.fault c.token, List.mem_append_right _ ?_, rfl⟩
    exact List.mem_map.2 ⟨c, List.mem_filter.2 ⟨h, hreported⟩, rfl⟩
  | false =>
    obtain ⟨d, hd, hline⟩ := List.all_eq_false.1 hreported
    exact ⟨d, List.mem_append_left _ hd, by simpa using hline⟩

theorem line_ne_of_mem_tokenDiagnostics {p : Program} {d e : Diagnostic} (hd : d ∈ p.tokenDiagnostics)
    (he : e ∈ p.scanned.diagnostics) : d.line ≠ e.line := by
  obtain ⟨c, hc, rfl⟩ := List.mem_map.1 hd
  have hne : e.line ≠ c.token.line := by simpa using List.all_eq_true.1 (List.mem_filter.1 hc).2 e he
  exact fun heq => hne heq.symm

/-- The reports of the tokens, each with the place of its token. -/
theorem placed_tokenDiagnostics (source : Text) : ∃ placed : List (Nat × Complaint),
    (ofSource source).tokenDiagnostics = placed.map (fun entry => .ofSyntax entry.2.fault entry.2.token) ∧
    placed.Pairwise (·.1 ≤ ·.1) ∧ ∀ entry ∈ placed, (scan source).tokens[entry.1]? = some entry.2.token := by
  obtain ⟨placed, hcomplaints, hsorted, hplaced⟩ := ReadProgram.placed_ofTokens (Scan.endsOnce_tokens source)
  refine ⟨placed.filter fun entry => (ofSource source).isReported entry.2, ?_, hsorted.filter _, fun entry hentry => ?_⟩
  · have hparsed : (ofSource source).parsed.complaints = placed.map (·.2) := hcomplaints.symm
    rw [tokenDiagnostics, hparsed, List.filter_map, List.map_map]
    rfl
  · exact (hplaced entry (List.mem_filter.1 hentry).1).2

/-- Later tokens are on later lines, or on the same line. -/
theorem line_le_of_place_le {i j : Nat} {t t' : Token} (hle : i ≤ j) (ht : (scan source).tokens[i]? = some t)
    (ht' : (scan source).tokens[j]? = some t') : t.line ≤ t'.line := by
  obtain ⟨hi, rfl⟩ := List.getElem?_eq_some_iff.1 ht
  obtain ⟨hj, rfl⟩ := List.getElem?_eq_some_iff.1 ht'
  rcases Nat.lt_or_eq_of_le hle with hlt | rfl
  · exact List.pairwise_iff_getElem.1 (Scan.pairwise_line_tokens source) i j hi hj hlt
  · exact Nat.le_refl _

theorem pairwise_line_tokenDiagnostics (source : Text) :
    (ofSource source).tokenDiagnostics.Pairwise (·.line ≤ ·.line) := by
  obtain ⟨placed, hdiagnostics, hsorted, hplaced⟩ := placed_tokenDiagnostics source
  rw [hdiagnostics]
  refine List.pairwise_map.2 (hsorted.imp_of_mem fun hentry hentry' hle => ?_)
  exact line_le_of_place_le hle (hplaced _ hentry) (hplaced _ hentry')

/-- What a run reports of reading is all that there is to report. -/
theorem readingReports_run (source : Text) {watchers : Watchers} (rounds : Nat) (replies : List Reply)
    (hreporter : watchers.reporter = true) :
    ((ofSource source).run watchers rounds replies).reports.filter (·.phase = .reading) =
      (ofSource source).diagnostics := by
  cases h : (ofSource source).accepted with
  | false =>
    rw [run_refused watchers rounds replies h]
    unfold RunResult.reports
    rw [(tells_readingEvents watchers (ofSource source) hreporter).reports]
    exact List.filter_eq_self.2 fun d hd => by simp [phase_of_mem_diagnostics hd]
  | true =>
    obtain ⟨-, hshown, hrun⟩ := run_accepted watchers rounds replies h (wellFormed_statements source)
    rw [hrun, reports_accepted hreporter h hshown, accepted_iff.1 h]
    generalize (interpret watchers rounds (ofSource source).statements (.fresh replies)).1 = result
    rcases result with (f | _) | _ <;> rfl

end Reports

/-- What a run reports of reading a source. The faults in the bytes come before
those in the tokens. Both are in the order of their lines, and those in the
tokens also in the order of the tokens they are blamed on. No report of a token
is on a line that has one of its bytes. Each statement that is given up has a
report on the line of the token where reading it got stuck, so that in an
accepted program every statement that was tried has been read. -/
theorem reading_reports_in_order (source : Text) (watchers : Watchers) (rounds : Nat) (replies : List Reply) :
    let p := ofSource source
    let run := p.run { watchers with reporter := true } rounds replies
    run.reports.filter (·.phase = .reading) = p.scanned.diagnostics ++ p.tokenDiagnostics ∧
    p.scanned.diagnostics.Pairwise (·.line ≤ ·.line) ∧ p.tokenDiagnostics.Pairwise (·.line ≤ ·.line) ∧
    (∃ placed : List (Nat × Complaint),
      p.tokenDiagnostics = placed.map (fun entry => .ofSyntax entry.2.fault entry.2.token) ∧
      placed.Pairwise (·.1 ≤ ·.1) ∧ ∀ entry ∈ placed, p.scanned.tokens[entry.1]? = some entry.2.token) ∧
    (∀ d ∈ p.tokenDiagnostics, ∀ e ∈ p.scanned.diagnostics, d.line ≠ e.line) ∧
    (∀ budget loops left, p.TriesStatement budget loops left → ∀ complaint rest noted,
      (Stmt.readWithin budget loops).run left = .stuck complaint rest noted →
        p.accepted = false ∧ ∃ d ∈ run.reports, d.phase = .reading ∧ d.line = complaint.token.line) ∧
    (p.accepted = true → ∀ budget loops left, p.TriesStatement budget loops left →
      ∃ s rest, (Stmt.readWithin budget loops).run left = .read s rest []) := by
  intro p run
  have hreports : run.reports.filter (·.phase = .reading) = p.diagnostics :=
    readingReports_run source rounds replies rfl
  refine ⟨hreports, Scan.pairwise_line_diagnostics source, pairwise_line_tokenDiagnostics source,
    placed_tokenDiagnostics source, fun d hd e he => line_ne_of_mem_tokenDiagnostics hd he, ?_, ?_⟩
  · intro budget loops left htries complaint rest noted hstuck
    have hcomplaint : complaint ∈ p.parsed.complaints := by
      refine complaints_subset_of_tries htries ?_
      simp [hstuck, Reading.complaints]
    obtain ⟨d, hd, hline⟩ := exists_diagnostic_of_complaint hcomplaint
    constructor
    · refine Bool.of_not_eq_true fun haccepted => ?_
      rw [accepted_iff.1 haccepted] at hd
      cases hd
    · rw [← hreports] at hd
      obtain ⟨hreported, hphase⟩ := List.mem_filter.1 hd
      exact ⟨d, hreported, by simpa using hphase, hline⟩
  · intro haccepted budget loops left htries
    have hnone : p.parsed.complaints = [] := (accepted_iff_faultless.1 haccepted).2
    have hsubset := complaints_subset_of_tries htries
    rw [hnone] at hsubset
    exact Reading.read_of_complaints_nil (List.subset_nil.1 hsubset)

/-- The first statement of a block is given up, and its line has a report. -/
theorem reading_reports_in_order_block :
    let p := ofSource "SUGOD PUNDOK\x7b)\x7d"
    let run := p.run { reporter := true } 0 []
    ∃ left complaint rest, p.TriesStatement 14 0 left ∧ left.map (·.kind) = [.rightParen, .rightBrace, .eof] ∧
      (Stmt.readWithin 14 0).run left = .stuck complaint rest [] ∧ p.accepted = false ∧
      ∃ d ∈ run.reports, d.phase = .reading ∧ d.line = complaint.token.line := by
  intro p run
  let t (kind : Kind) (lexeme : String) (pos : Nat) : Token :=
    { kind := kind, lexeme := Text.ofString lexeme, line := 1, pos := some pos }
  let left := [t .rightParen ")" 13, t .rightBrace "\x7d" 14, t .eof "" 15]
  have htokens : p.scanned.tokens = t .sugod "SUGOD" 0 :: t .pundok "PUNDOK" 6 :: t .leftBrace "\x7b" 12 :: left := by
    decide +kernel
  have htries : p.TriesStatement 14 0 left := by
    unfold TriesStatement
    rw [htokens]
    -- behind the start of the program, the first statement is a block
    refine .next rfl (.next rfl (.first (.next rfl (.first (.resumed ?_)))))
    -- behind the brace, the block tries its first statement
    exact .next rfl (.first (.next rfl (.first (.next rfl (.first (.resumed .self))))))
  have hstuck : (Stmt.readWithin 14 0).run left = .stuck ⟨.expectedExpression, t .rightParen ")" 13⟩ left [] := rfl
  obtain ⟨-, -, -, -, -, hgiven, -⟩ := reading_reports_in_order "SUGOD PUNDOK\x7b)\x7d" { reporter := true } 0 []
  exact ⟨left, _, _, htries, rfl, hstuck, hgiven 14 0 left htries _ _ _ hstuck⟩

end Program

end BisayaPlus
