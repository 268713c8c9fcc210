import Mathlib.Data.List.Forall2
import BisayaPlus.Proofs.ReportOrder
/-!
# Line numbers

The scanner counts lines where it makes a newline and where it passes a line
feed of a text. So tokens and reports carry the number of the line they end on,
and a newline the number of the line it ends.
-/

set_option autoImplicit false

namespace BisayaPlus

open Text

namespace Scan

/-! ## Lines -/

section Lines

variable {before : Before} {pos line : Nat} {t source : Text} {s : Segment}

/-- A segment starts on the line that the line feeds before it lead to. -/
theorem line_segmentsFrom {front back : List Segment} (h : segmentsFrom before pos line t = front ++ s :: back) :
    s.line = line + lineFeeds (front.flatMap (·.bytes)) := by
  induction front generalizing before pos line t with
  | nil =>
    cases t with
    | nil => simp [segmentsFrom] at h
    | cons b t =>
      rw [segmentsFrom] at h
      obtain ⟨rfl, -⟩ := List.cons.inj h
      rfl
  | cons first front ih =>
    cases t with
    | nil => simp [segmentsFrom] at h
    | cons b t =>
      rw [segmentsFrom] at h
      obtain ⟨rfl, hrest⟩ := List.cons.inj h
      rw [ih hrest, List.flatMap_cons, lineFeeds_append, ← Nat.add_assoc]
      exact congrArg (· + _) (nextLine_pieceAt pos line rfl)

/-- A segment is cut from the source at its offset, and starts on its line. -/
theorem exists_cut (hs : s ∈ segments source) : ∃ start state b u n, source = start ++ b :: u ∧
    s.pos = start.length ∧ s.line = 1 + lineFeeds start ∧ pieceAt state b u = (s.piece, n) ∧
    s.bytes = b :: u.take n := by
  obtain ⟨front, back, hsegments⟩ := List.append_of_mem hs
  obtain ⟨state, b, u, n, htext, hpiece, hbytes, hpos, -⟩ := segmentsFrom_eq_append hsegments
  exact ⟨_, state, b, u, n, htext, by rw [hpos, Nat.zero_add], line_segmentsFrom hsegments, hpiece, hbytes⟩

/-- All segments but newlines have the line on which they end. -/
theorem endLine_of_cut {state : Before} {b : UInt8} {u start : Text} {n : Nat} (hline : s.line = 1 + lineFeeds start)
    (hpiece : pieceAt state b u = (s.piece, n)) (hbytes : s.bytes = b :: u.take n)
    (hnewline : ∀ literal, s.piece ≠ .token .newline literal) : s.endLine = 1 + lineFeeds (start ++ s.bytes) := by
  obtain ⟨piece, bytes, pos, line⟩ := s
  obtain rfl : bytes = b :: u.take n := hbytes
  obtain rfl : line = 1 + lineFeeds start := hline
  rw [endLine_pieceAt hpiece hnewline, lineFeeds_append, Nat.add_assoc]

/-- `Reports source s d`: the segment `s` is at fault, and this is the report of it. It
has the line on which the segment ends, and quotes its first line. -/
def Reports (source : Text) (s : Segment) (d : Diagnostic) : Prop :=
  ∃ start after fault, source = start ++ s.bytes ++ after ∧ s.pos = start.length ∧ Offends fault s.bytes after ∧
    d = { phase := .reading, line := 1 + lineFeeds (start ++ s.bytes),
          place := (" at '" : String) ++ s.bytes.takeWhile (· != lineFeed) ++ ("'" : String),
          message := fault.message }

/-- The segment is at fault. -/
def Segment.isFault (s : Segment) : Bool :=
  match s.piece with
  | .fault _ => true
  | _ => false

theorem Segment.isFault_eq (s : Segment) : s.isFault = s.diagnostic?.isSome := by
  unfold isFault diagnostic?
  cases s.piece <;> rfl

theorem forall₂_diagnostics {R : Segment → Diagnostic → Prop} {parts : List Segment}
    (h : ∀ s ∈ parts, ∀ d ∈ s.diagnostic?, R s d) :
    List.Forall₂ R (parts.filter Segment.isFault) (parts.filterMap Segment.diagnostic?) := by
  induction parts with
  | nil => exact .nil
  | cons s more ih =>
    obtain ⟨hs, hmore⟩ := List.forall_mem_cons.1 h
    cases hd : s.diagnostic? with
    | none =>
      rw [List.filter_cons_of_neg (by simp [Segment.isFault_eq, hd]), List.filterMap_cons_none hd]
      exact ih hmore
    | some d =>
      rw [List.filter_cons_of_pos (by simp [Segment.isFault_eq, hd]), List.filterMap_cons_some hd]
      exact .cons (hs d hd) (ih hmore)

theorem reports_of_diagnostic? (hs : s ∈ segments source) {d : Diagnostic} (hd : s.diagnostic? = some d) :
    Reports source s d := by
  obtain ⟨start, state, b, u, n, htext, hpos, hline, hpiece, hbytes⟩ := exists_cut hs
  unfold Segment.diagnostic? at hd
  split at hd
  · next fault hfault =>
    have hend := endLine_of_cut hline hpiece hbytes (by simp [hfault])
    rw [hfault] at hpiece
    refine ⟨start, u.drop n, fault, by simp [htext, hbytes], hpos, hbytes ▸ offends_pieceAt hpiece, ?_⟩
    rw [← Option.some.inj hd, hend]
  · cases hd

/-- The line of a token, from what stands before it in the source. -/
theorem line_of_token? (hs : s ∈ segments source) {t : Token} (ht : s.token? = some t) :
    ∃ start after, source = start ++ t.lexeme ++ after ∧ t.pos = some start.length ∧
      t.line = 1 + lineFeeds (if t.kind = .newline then start else start ++ t.lexeme) := by
  obtain ⟨start, state, b, u, n, htext, hpos, hline, hpiece, hbytes⟩ := exists_cut hs
  unfold Segment.token? at ht
  split at ht
  · next kind literal hkind =>
    obtain rfl := Option.some.inj ht
    refine ⟨start, u.drop n, by simp [htext, hbytes], congrArg some hpos, ?_⟩
    dsimp only
    split
    · next hnewline =>
      have hend : s.endLine = s.line := by rw [Segment.endLine, hkind, hnewline]
      rw [hend, hline]
    · next hnewline => exact endLine_of_cut hline hpiece hbytes (by simp [hkind, hnewline])
  · cases ht

end Lines

/-- Lines are numbered from one by the line feeds of the source, also if they are
counted in place. A token has the line of its end, but a newline has the line it
ends. Every text at fault is reported with the line of its end. So the lines of
tokens never go back. Only newlines and texts in double quotes go over the end of
a line. -/
theorem scan_numbers_lines (source : Text) :
    -- the counter of the sweep, which meets the line feeds one by one
    (Sweep.all (source.length + 1)).run source ⟨0, 0, 1, [], []⟩ =
      some (⟨⟩, ⟨source.length, source.length, 1 + lineFeeds source, (scan source).tokens, (scan source).diagnostics⟩) ∧
    -- the line of each token
    (∀ t ∈ (scan source).tokens, ∃ start after, source = start ++ t.lexeme ++ after ∧ t.pos = some start.length ∧
      t.line = 1 + lineFeeds (if t.kind = .newline then start else start ++ t.lexeme)) ∧
    -- the reports, one for each text at fault
    List.Forall₂ (Reports source) ((segments source).filter Segment.isFault) (scan source).diagnostics ∧
    (scan source).tokens.Pairwise (·.line ≤ ·.line) ∧
    -- where the line feeds are
    ∀ s ∈ segments source, lineFeed ∈ s.bytes →
      (s.piece = .token .newline none ∧ s.bytes = [lineFeed]) ∨ s.bytes.head? = some (byte '"') := by
  refine ⟨?_, fun t ht => ?_, forall₂_diagnostics fun s hs d hd => reports_of_diagnostic? hs hd,
    pairwise_line_tokens source, fun s hs hmem => ?_⟩
  · rw [← lastLine_scan]
    exact Sweep.run_all source (Nat.lt_succ_self _)
  · rcases List.mem_append.1 ht with ht | ht
    · obtain ⟨s, hs, htoken⟩ := List.mem_filterMap.1 ht
      exact line_of_token? hs htoken
    · obtain rfl := List.mem_singleton.1 ht
      refine ⟨source, [], by simp, rfl, ?_⟩
      rw [if_neg nofun, List.append_nil]
      exact lastLine_scan source
  · obtain ⟨start, state, b, u, n, -, -, -, hpiece, hbytes⟩ := exists_cut hs
    rw [hbytes] at hmem ⊢
    exact (lineFeed_mem_pieceAt hpiece hmem).imp_right fun hquoted => congrArg some hquoted.1

end Scan

end BisayaPlus
