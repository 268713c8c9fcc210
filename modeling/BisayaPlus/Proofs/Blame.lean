import BisayaPlus.Proofs.Outcomes
import BisayaPlus.Proofs.Segments
/-!
# What faults are blamed on

The trees of a source are made of its tokens. So whatever fails in a run is
blamed on a token of the source, or on the operator inside one of its compound
assignments, and is reported on the line of that token.
-/

set_option autoImplicit false

namespace BisayaPlus

open Execution

/-- A token of the source. An escape carries the text it stands for, and only
the end is written with no bytes. -/
structure IsTokenOf (source : Text) (t : Token) : Prop where
  mem : t ∈ (scan source).tokens
  escape : t.kind = .escape → ∃ text, t.literal = some (.pulong text)
  lexeme : t.kind ≠ .eof → t.lexeme ≠ []

theorem isTokenOf_of_mem {source : Text} {t : Token} (h : t ∈ (scan source).tokens) : IsTokenOf source t := by
  obtain ⟨body, last, htokens, heof, -, hbody⟩ := Scan.tokens_scan source
  have hcases : t ∈ body ∨ t = last := by simpa [htokens] using h
  rcases hcases with hmem | rfl
  · obtain ⟨hcarries, hlexeme⟩ := hbody t hmem
    refine ⟨h, fun hk => ?_, fun _ => hlexeme⟩
    rw [hk] at hcarries
    generalize t.literal = literal at hcarries
    cases hcarries with
    | escape text => exact ⟨text, rfl⟩
    | bare hnot => simp at hnot
  · exact ⟨h, fun hk => by simp [heof] at hk, fun hne => absurd heof hne⟩

/-- The bytes that a report quotes. -/
def quoted (lexeme : Text) : Text := (" at '" : String) ++ lexeme ++ ("'" : String)

theorem place_eq_quoted {t : Token} (heof : t.kind ≠ .eof) (hnewline : t.kind ≠ .newline) :
    t.place = quoted t.lexeme := by
  unfold Token.place
  split
  · next h => exact absurd h heof
  · next h => exact absurd h hnewline
  · rfl

/-- A report that quotes bytes is not one at an end. -/
theorem quoted_ne_end (lexeme : Text) :
    quoted lexeme ≠ Text.ofString " at end" ∧ quoted lexeme ≠ Text.ofString " at end of line" := by
  have hfront : (quoted lexeme).take 5 = Text.ofString " at '" := by
    unfold quoted
    rw [List.append_assoc]
    exact List.take_left' (by decide)
  constructor
  · intro h
    rw [h] at hfront
    revert hfront
    decide
  · intro h
    rw [h] at hfront
    revert hfront
    decide

/-- The place and the line of a report, from the token that is blamed. -/
theorem Blamed.place {source : Text} {t : Token} (h : Blamed (IsTokenOf source) t) :
    ∃ t' ∈ (scan source).tokens, t.line = t'.line ∧ ∃ lexeme, t.place = quoted lexeme ∧
      (lexeme = t'.lexeme ∨ ((Expr.compound? t'.kind).isSome ∧ lexeme = t'.lexeme.take 1 ∧ lexeme.length = 1)) := by
  cases h with
  | written hT heof hnewline => exact ⟨t, hT.mem, rfl, t.lexeme, place_eq_quoted heof hnewline, .inl rfl⟩
  | @compound sign kind hT hkind =>
    have hne : sign.kind ≠ .eof := by
      intro heof
      rw [heof] at hkind
      cases hkind
    have hlength : (sign.lexeme.take 1).length = 1 := by
      have hpos := List.length_pos_iff.2 (hT.lexeme hne)
      rw [List.length_take]
      omega
    have hmem := Expr.compound?_mem hkind
    refine ⟨sign, hT.mem, rfl, _, place_eq_quoted ?_ ?_, .inr ⟨by simp [hkind], rfl, hlength⟩⟩
    · rintro rfl
      revert hmem
      decide
    · rintro rfl
      revert hmem
      decide

namespace Program

/-- The trees of a source, also of one that is refused for other statements. -/
theorem wellFormed_ofSource (source : Text) : ∀ s ∈ (ofSource source).statements,
    s.WellFormed (IsTokenOf source) ((ofSource source).accepted = true) false :=
  ReadProgram.wellFormed_ofTokens (fun _ ht => isTokenOf_of_mem ht) fun h => (accepted_iff_faultless.1 h).2

/-- A run that fails reports a fault that well-formed statements may have. -/
theorem fault_of_report {source : Text} {watchers : Watchers} {rounds : Nat} {replies : List Reply} {d : Diagnostic}
    (hd : d ∈ ((ofSource source).run watchers rounds replies).reports) (hphase : d.phase = .running) :
    ∃ f : Fault, d = .ofFault f ∧ f.IsSound (IsTokenOf source) := by
  cases hreporter : watchers.reporter with
  | false =>
    have hunheard := run_unheard { watchers with reporter := true } rounds replies rfl (wellFormed_ofSource source)
    rw [← hreporter] at hunheard
    unfold RunResult.reports at hd
    rw [hunheard] at hd
    obtain ⟨e, he, hreport⟩ := List.mem_filterMap.1 hd
    simp [hreport] at he
  | true =>
    cases h : (ofSource source).accepted with
    | false =>
      -- what is reported of a refused program was found while it was read
      rw [run_refused watchers rounds replies h] at hd
      unfold RunResult.reports at hd
      rw [(tells_readingEvents watchers (ofSource source) hreporter).reports] at hd
      rw [phase_of_mem_diagnostics hd] at hphase
      cases hphase
    | true =>
      obtain ⟨hending, hshown, hrun⟩ := run_accepted watchers rounds replies h (wellFormed_ofSource source)
      rw [hrun, reports_accepted hreporter h hshown] at hd
      generalize (interpret watchers rounds (ofSource source).statements (.fresh replies)).1 = result at hending hd
      cases hending with
      | gave _ => cases hd
      | unfinished => cases hd
      | @fault f hsound => exact ⟨f, List.mem_singleton.1 hd, hsound⟩

/-- The trees of a source are well formed. So a run blames each fault on a token
of the source, never on an operator that has no operation, and its report
quotes that token. -/
theorem faults_blame_source_tokens (source : Text) :
    (∀ operator : Token, operator.kind ∈ Operation.binaryKinds ↔
      ∀ l r, Operation.binary operator l r ≠ .error ⟨operator, .undefinedOperator operator.lexeme⟩) ∧
    (∀ s ∈ (ofSource source).statements,
      s.WellFormed (IsTokenOf source) ((ofSource source).accepted = true) false) ∧
    (∀ s ∈ (ofSource source).statements, ∀ watchers rounds m m' f,
      s.execute watchers rounds m = (.error (.fault f), m') → f.IsSound (IsTokenOf source)) ∧
    (∀ watchers rounds replies, ∀ d ∈ ((ofSource source).run watchers rounds replies).reports, d.phase = .running →
      ∃ f : Fault, d = .ofFault f ∧ (∀ lexeme, f.cause ≠ .undefinedOperator lexeme) ∧
        ∃ t ∈ (scan source).tokens, d.line = t.line ∧ ∃ lexeme, d.place = quoted lexeme ∧
          (lexeme = t.lexeme ∨ ((Expr.compound? t.kind).isSome ∧ lexeme = t.lexeme.take 1 ∧ lexeme.length = 1)) ∧
          d.place ≠ Text.ofString " at end" ∧ d.place ≠ Text.ofString " at end of line") := by
  refine ⟨fun _ => Operation.mem_binaryKinds_iff, wellFormed_ofSource source, ?_, ?_⟩
  · intro s hs watchers rounds m m' f hrun
    exact ((wellFormed_ofSource source s hs).ends_execute watchers rounds).sound_of_run hrun
  · intro watchers rounds replies d hd hphase
    obtain ⟨f, rfl, hsound⟩ := fault_of_report hd hphase
    obtain ⟨t, ht, hline, lexeme, hplace, hlexeme⟩ := hsound.token.place
    have hplace : (Diagnostic.ofFault f).place = quoted lexeme := hplace
    refine ⟨f, rfl, hsound.cause, t, ht, hline, lexeme, hplace, hlexeme, ?_⟩
    rw [hplace]
    exact quoted_ne_end lexeme

end Program

end BisayaPlus
