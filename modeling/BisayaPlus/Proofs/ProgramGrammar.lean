import BisayaPlus.Program
import BisayaPlus.Proofs.StatementGrammar
/-!
# Programs and their grammar

Reading a whole list of tokens leaves no complaint exactly when the list is a
program of the grammar, and the statements that are read are then those of the
program.
-/

set_option autoImplicit false

namespace BisayaPlus.Grammar

open TokenReader Stmt ReadProgram

/-! ## The statements of a program -/

section Top

variable {r : TokenReader Stmt}

/-- The loop over a program stops at its end, passes a newline, or takes a
statement. A brace without a block is a complaint. -/
theorem reads_readTop {bound : Nat} {ts rest : List Token} {statements : List Stmt} :
    Reads (readTop r (bound + 1)) ts statements rest ↔
      ((nextKind ts = .eof ∨ nextKind ts = .katapusan) ∧ statements = [] ∧ ts = rest) ∨
      (∃ t mid, ts = t :: mid ∧ t.kind = .newline ∧ Reads (readTop r bound) mid statements rest) ∨
      (endsBlock (nextKind ts) = false ∧ nextKind ts ≠ .newline ∧ ∃ s mid more, Reads r ts s mid ∧
        Reads (readTop r bound) mid more rest ∧ statements = s :: more) := by
  rw [readTop, reads_peek]
  change Reads (if nextKind ts = .eof ∨ nextKind ts = .katapusan then _ else if nextKind ts = .newline then _ else
    if nextKind ts = .rightBrace then _ else _) _ _ _ ↔ _
  constructor
  · intro h
    split at h
    · next hk =>
      obtain ⟨rfl, rfl⟩ := reads_pure.1 h
      exact .inl ⟨hk, rfl, rfl⟩
    · next hk =>
      split at h
      · next hnl =>
        cases ts with
        | nil => cases hnl
        | cons t mid => exact .inr (.inl ⟨t, mid, rfl, hnl, reads_skip.1 h⟩)
      · next hnl =>
        split at h
        · obtain ⟨u, mid, h1, -⟩ := reads_bind.1 h
          exact absurd h1 reads_note
        · next hb =>
          obtain ⟨o, mid, h1, h2⟩ := reads_bind.1 h
          obtain ⟨more, mid', h3, h4⟩ := reads_bind.1 h2
          obtain ⟨rfl, rfl⟩ := reads_pure.1 h4
          obtain ⟨s, rfl, hs⟩ := reads_orResume.1 h1
          have he := endsBlock_eq_false.2 ⟨fun h => hk (.inr h), hb, fun h => hk (.inl h)⟩
          exact .inr (.inr ⟨he, hnl, s, mid, more, hs, h3, rfl⟩)
  · rintro (⟨hk, rfl, rfl⟩ | ⟨t, mid, rfl, hk, h⟩ | ⟨he, hnl, s, mid, more, h1, h2, rfl⟩)
    · rw [if_pos hk]
      exact reads_pure.2 ⟨rfl, rfl⟩
    · rw [if_neg (by simp [hk]), if_pos (by simpa using hk)]
      exact reads_skip.2 h
    · obtain ⟨hkatapusan, hbrace, heof⟩ := endsBlock_eq_false.1 he
      rw [if_neg (by simp [heof, hkatapusan]), if_neg hnl, if_neg hbrace]
      exact .bind (reads_orResume.2 ⟨s, rfl, h1⟩) (.bind h2 (reads_pure.2 ⟨rfl, rfl⟩))

/-- The statements of a program are read like those of a block. -/
theorem items_of_top (bound : Nat) : ∀ {ts rest : List Token} {statements : List Stmt},
    Reads (readTop r bound) ts statements rest → Reads (readItems r bound) ts statements rest := by
  induction bound with
  | zero => exact id
  | succ bound ih =>
    intro ts rest statements h
    rcases reads_readTop.1 h with ⟨hk, h'⟩ | ⟨t, mid, rfl, hk, h'⟩ | ⟨he, hnl, s, mid, more, h1, h2, h3⟩
    · exact reads_readItems.2 (.inl ⟨by rcases hk with hk | hk <;> rw [hk] <;> rfl, h'⟩)
    · exact reads_readItems.2 (.inr (.inl ⟨t, mid, rfl, hk, ih h'⟩))
    · exact reads_readItems.2 (.inr (.inr ⟨he, hnl, s, mid, more, h1, ih h2, h3⟩))

/-- The other way round, unless they stop at a brace. -/
theorem top_of_items (bound : Nat) : ∀ {ts rest : List Token} {statements : List Stmt},
    Reads (readItems r bound) ts statements rest → nextKind rest ≠ .rightBrace →
      Reads (readTop r bound) ts statements rest := by
  induction bound with
  | zero => exact fun h _ => h
  | succ bound ih =>
    intro ts rest statements h hb
    rcases reads_readItems.1 h with ⟨he, h', rfl⟩ | ⟨t, mid, rfl, hk, h'⟩ | ⟨he, hnl, s, mid, more, h1, h2, h3⟩
    · refine reads_readTop.2 (.inl ⟨?_, h', rfl⟩)
      rcases endsBlock_iff.1 he with hk | hk | hk
      · exact .inr hk
      · exact absurd hk hb
      · exact .inl hk
    · exact reads_readTop.2 (.inr (.inl ⟨t, mid, rfl, hk, ih h' hb⟩))
    · exact reads_readTop.2 (.inr (.inr ⟨he, hnl, s, mid, more, h1, ih h2 hb, h3⟩))

end Top

/-! ## Whole programs -/

theorem reads_readEnd {ts rest : List Token} {ended : Bool} :
    Reads readEnd ts ended rest ↔
      ∃ stop mid, ts = stop :: mid ∧ stop.kind = .katapusan ∧ rest = afterNewlines mid ∧ nextKind rest = .eof ∧
        ended = true := by
  rw [readEnd, reads_bind]
  constructor
  · rintro ⟨o, mid, ho, h⟩
    cases o with
    | none =>
      obtain ⟨u, mid', h1, -⟩ := reads_bind.1 (reads_peek.1 h)
      exact absurd h1 reads_note
    | some stop =>
      obtain ⟨rfl, hk⟩ := reads_take?_some.1 ho
      have h' := reads_peek.1 (reads_skipNewlines.1 h)
      dsimp only at h'
      split at h'
      · obtain ⟨u, mid', h1, -⟩ := reads_bind.1 h'
        exact absurd h1 reads_note
      · next he =>
        obtain ⟨rfl, rfl⟩ := reads_pure.1 h'
        exact ⟨stop, mid, rfl, by simpa using hk, rfl, by simpa [nextKind] using he, rfl⟩
  · rintro ⟨stop, mid, rfl, hk, rfl, he, rfl⟩
    refine ⟨some stop, mid, reads_take?_some.2 ⟨rfl, by simp [hk]⟩, reads_skipNewlines.2 (reads_peek.2 ?_)⟩
    dsimp only
    rw [if_neg (by simpa [nextKind] using he)]
    exact reads_pure.2 ⟨rfl, rfl⟩

theorem reads_readAll {budget : Nat} {ts rest : List Token} {statements : List Stmt} {ended : Bool} :
    Reads (readAll budget) ts (statements, ended) rest ↔
      ∃ start mid mid', afterNewlines ts = start :: mid ∧ start.kind = .sugod ∧
        Reads (readTop (Stmt.readWithin budget 0) budget) mid statements mid' ∧ Reads readEnd mid' ended rest := by
  rw [readAll, reads_skipNewlines, reads_bind]
  constructor
  · rintro ⟨o, mid, ho, h⟩
    cases o with
    | none =>
      obtain ⟨u, mid', h1, -⟩ := reads_bind.1 (reads_peek.1 h)
      exact absurd h1 reads_note
    | some start =>
      obtain ⟨hs, hk⟩ := reads_take?_some.1 ho
      obtain ⟨statements', mid', h1, h2⟩ := reads_bind.1 h
      obtain ⟨ended', mid'', h3, h4⟩ := reads_bind.1 h2
      obtain ⟨he, rfl⟩ := reads_pure.1 h4
      cases he
      exact ⟨start, mid, mid', hs, by simpa using hk, h1, h3⟩
  · rintro ⟨start, mid, mid', hs, hk, h1, h2⟩
    refine ⟨some start, mid, reads_take?_some.2 ⟨hs, by simp [hk]⟩, ?_⟩
    exact .bind h1 (.bind h2 (reads_pure.2 ⟨rfl, rfl⟩))

/-- Exactly one token is an end, the last one. -/
def EndsOnce (ts : List Token) : Prop :=
  ∃ body last, ts = body ++ [last] ∧ last.kind = .eof ∧ ∀ t ∈ body, t.kind ≠ .eof

theorem EndsOnce.cons {t : Token} {ts : List Token} (h : EndsOnce (t :: ts)) :
    t.kind = .eof ∧ ts = [] ∨ t.kind ≠ .eof ∧ EndsOnce ts := by
  obtain ⟨body, last, hts, hl, hb⟩ := h
  cases body with
  | nil =>
    obtain ⟨rfl, rfl⟩ := List.cons.inj hts
    exact .inl ⟨hl, rfl⟩
  | cons t' body =>
    obtain ⟨rfl, rfl⟩ := List.cons.inj hts
    exact .inr ⟨hb t (by simp), body, last, rfl, hl, fun u hu => hb u (by simp [hu])⟩

theorem EndsOnce.of_append {taken ts : List Token} (h : EndsOnce (taken ++ ts)) (hne : ts ≠ []) : EndsOnce ts := by
  induction taken with
  | nil => exact h
  | cons t taken ih =>
    rcases EndsOnce.cons h with ⟨-, hnil⟩ | ⟨-, h'⟩
    · exact absurd (List.append_eq_nil_iff.1 hnil).2 hne
    · exact ih h'

/-- Where nothing but newlines comes before an end, only these are left. -/
theorem EndsOnce.eq_blank {ts : List Token} (h : EndsOnce ts) (hk : nextKind (afterNewlines ts) = .eof) :
    ∃ blank last, Blank blank ∧ last.kind = .eof ∧ ts = blank ++ [last] := by
  induction ts with
  | nil =>
    obtain ⟨body, last, hts, -⟩ := h
    simp at hts
  | cons t ts ih =>
    rcases h.cons with ⟨he, rfl⟩ | ⟨he, h'⟩
    · exact ⟨[], t, by simp [Blank], he, rfl⟩
    · by_cases hn : t.kind = .newline
      · rw [afterNewlines_newline hn] at hk
        obtain ⟨blank, last, hb, hl, rfl⟩ := ih h' hk
        exact ⟨t :: blank, last, by simpa [Blank, hn] using hb, hl, rfl⟩
      · rw [afterNewlines_of_ne (by simpa using hn)] at hk
        exact absurd hk he

/-- Whatever is read as a whole without a complaint is a program. -/
theorem program_of_reads {ts rest : List Token} {statements : List Stmt} {ended : Bool} (he : EndsOnce ts)
    (h : Reads (readAll (2 * ts.length + 3)) ts (statements, ended) rest) : IsProgram ts statements := by
  obtain ⟨start, mid, mid', hs, hstart, h1, h2⟩ := reads_readAll.1 h
  obtain ⟨stop, after, rfl, hstop, rfl, hend, -⟩ := reads_readEnd.1 h2
  obtain ⟨before, hbefore, hts, -⟩ := afterNewlines_spec ts
  rw [hs] at hts
  have hlen : mid.length ≤ ts.length := by
    rw [hts]
    simp only [List.length_append, List.length_cons]
    omega
  have hsound := readWithin_sound (2 * ts.length + 3) 0 ts.length (by omega)
  obtain ⟨taken, rfl, hd⟩ := items_of_reads hsound _ _ _ _ hlen (items_of_top _ h1) (by simp [hstop])
  have he' : EndsOnce (before ++ start :: taken ++ stop :: after) := by simpa [← hts] using he
  -- behind KATAPUSAN there are only newlines before the one end
  have hstopped : EndsOnce (stop :: after) := he'.of_append (by simp)
  obtain ⟨hk, -⟩ | ⟨-, hafter⟩ := hstopped.cons
  · rw [hstop] at hk
    cases hk
  · obtain ⟨blank, last, hblank, hlast, rfl⟩ := hafter.eq_blank hend
    have hp := IsProgram.mk hbefore hstart hd hstop hblank hlast
    rw [hts]
    simpa using hp

/-- Every program is read as a whole without a complaint. -/
theorem reads_of_program {ts : List Token} {statements : List Stmt} {budget : Nat} (h : IsProgram ts statements)
    (hb : 2 * ts.length < budget) : ∃ rest, Reads (readAll budget) ts (statements, true) rest := by
  obtain ⟨hbefore, hstart, hd, hstop, hafter, hlast⟩ := h
  rename_i before after ts start stop last
  simp only [List.length_append, List.length_cons, List.length_nil] at hb
  have hread := derives_read hd 0 budget rfl (by omega) (by simp [hstop, endsBlock]) budget (by omega)
  refine ⟨[last], reads_readAll.2 ⟨start, _, _, ?_, hstart, top_of_items _ hread (by simp [hstop]), ?_⟩⟩
  · rw [show before ++ start :: ts ++ stop :: after ++ [last] =
      before ++ start :: (ts ++ (stop :: after ++ [last])) by simp]
    exact afterNewlines_append hbefore (by simp [hstart])
  · refine reads_readEnd.2 ⟨stop, after ++ [last], rfl, hstop, ?_, by simpa using hlast, rfl⟩
    exact (afterNewlines_append hafter (by simp [hlast])).symm

theorem complaints_eq_nil_iff {ts : List Token} :
    (ofTokens ts).complaints = [] ↔
      ∃ statements ended rest, Reads (readAll (2 * ts.length + 3)) ts (statements, ended) rest := by
  unfold ofTokens Reads
  cases (readAll (2 * ts.length + 3)).run ts with
  | read value rest noted =>
    simp only [Reading.read.injEq]
    constructor
    · rintro rfl
      exact ⟨value.1, value.2, rest, rfl, rfl, rfl⟩
    · rintro ⟨_, _, _, -, -, hn⟩
      exact hn
  | stuck complaint rest noted => simp

theorem statements_of_reads {ts rest : List Token} {statements : List Stmt} {ended : Bool}
    (h : Reads (readAll (2 * ts.length + 3)) ts (statements, ended) rest) : (ofTokens ts).statements = statements := by
  unfold ofTokens
  rw [h]

end BisayaPlus.Grammar

/-! ## Accepted programs -/

namespace BisayaPlus.Program

open Grammar TokenReader

theorem diagnostics_eq_nil {p : Program} (h : p.accepted = true) : p.diagnostics = [] := List.isEmpty_iff.1 h

/-- The tokens of an accepted program are one, and these are its statements. -/
theorem isProgram_of_accepted {scanned : Scanned} (he : EndsOnce scanned.tokens)
    (h : (ofScanned scanned).accepted = true) : IsProgram scanned.tokens (ofScanned scanned).statements := by
  have hnil := diagnostics_eq_nil h
  have hclean : scanned.diagnostics = [] := (List.append_eq_nil_iff.1 hnil).1
  rw [diagnostics_ofScanned hclean, List.map_eq_nil_iff, complaints_eq_nil_iff] at hnil
  obtain ⟨statements, ended, rest, hr⟩ := hnil
  have hstatements : (ofScanned scanned).statements = statements := statements_of_reads hr
  rw [hstatements]
  exact program_of_reads he hr

theorem accepted_of_isProgram {scanned : Scanned} {statements : List Stmt} (hd : scanned.diagnostics = [])
    (h : IsProgram scanned.tokens statements) :
    (ofScanned scanned).accepted = true ∧ (ofScanned scanned).statements = statements := by
  obtain ⟨rest, hr⟩ := reads_of_program h (Nat.lt_add_of_pos_right (Nat.succ_pos 2))
  refine ⟨List.isEmpty_iff.2 ?_, statements_of_reads hr⟩
  rw [diagnostics_ofScanned hd, List.map_eq_nil_iff, complaints_eq_nil_iff]
  exact ⟨statements, true, rest, hr⟩

end BisayaPlus.Program

namespace BisayaPlus.Grammar

/-- Tokens with one end, at their end, are accepted exactly when they are a
program, and then its statements are what is read. -/
theorem accepted_iff_program (scanned : Scanned) (hd : scanned.diagnostics = []) (he : EndsOnce scanned.tokens) :
    ((Program.ofScanned scanned).diagnostics = [] ↔ ∃ statements, IsProgram scanned.tokens statements) ∧
      ∀ statements, IsProgram scanned.tokens statements → (Program.ofScanned scanned).statements = statements := by
  refine ⟨⟨fun h => ?_, ?_⟩, fun statements h => (Program.accepted_of_isProgram hd h).2⟩
  · exact ⟨_, Program.isProgram_of_accepted he (List.isEmpty_iff.2 h)⟩
  · rintro ⟨statements, h⟩
    exact Program.diagnostics_eq_nil (Program.accepted_of_isProgram hd h).1

/-- A conditional loop with a jump in each alternative of its body. -/
theorem accepted_iff_program_jumps :
    let t (k : Kind) : Token := { kind := k, lexeme := [], line := 1 }
    let condition : List Token := [t .leftParen, t .identifier, t .rightParen]
    let ts := [t .sugod, t .newline, t .mintras] ++ condition ++ [t .newline, t .kung] ++ condition ++
      [t .hunong, t .newline, t .kungWala, t .padayon, t .katapusan, t .eof]
    EndsOnce ts ∧ IsProgram ts
      [.mintras (t .mintras) (.var (t .identifier))
        (.kung (t .kung) (.var (t .identifier)) (.hunong (t .hunong)) [] (some (.padayon (t .padayon))))] := by
  intro t condition ts
  have he : EndsOnce ts := ⟨ts.dropLast, t .eof, rfl, rfl, by decide⟩
  obtain ⟨hiff, hstatements⟩ := accepted_iff_program { tokens := ts, diagnostics := [], lastLine := 1 } rfl he
  obtain ⟨statements, h⟩ := hiff.1 rfl
  obtain rfl := hstatements statements h
  exact ⟨he, h⟩

end BisayaPlus.Grammar
