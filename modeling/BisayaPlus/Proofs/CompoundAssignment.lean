import BisayaPlus.Proofs.AssignmentSites
import BisayaPlus.Proofs.Observers
import BisayaPlus.Proofs.ProgramGrammar
import BisayaPlus.Proofs.RelocatedRuns
/-!
# Compound assignment

`x += e` means `x = x + (e)`, and so with the other signs. An accepted program
stays one if an assignment in it is written out so, and it prints, reads and
reports the same and ends the same. This covers values that change the variable
themselves and faults of any kind: the old value is taken before the new one is
computed, and each fault is blamed on the same line and the same sign.
-/

set_option autoImplicit false

namespace BisayaPlus

open Correspondence Execution

/-! ## Writing an assignment out -/

namespace Grammar

theorem Layer.rank_injective : ∀ layer layer' : Layer, layer.rank = layer'.rank → layer = layer' := by
  intro layer layer'
  cases layer <;> cases layer' <;> decide

/-- An expression of a layer is one of every looser layer. -/
theorem Expression.loosen {layer : Layer} {ts : List Token} {e : Expr} (h : Expression layer ts e) (n : Nat) :
    ∀ {layer' : Layer}, layer'.rank + n = layer.rank → Expression layer' ts e := by
  induction n with
  | zero =>
    intro layer' hr
    rw [Layer.rank_injective layer' layer hr]
    exact h
  | succ n ih =>
    intro layer' hr
    have hne : layer' ≠ .primary := by
      rintro rfl
      have hle := layer.rank_le
      have hprimary : Layer.rank .primary = 8 := rfl
      omega
    exact .tighter hne (ih (by rw [Layer.rank_tighter hne]; omega))

/-- The tokens that write a compound assignment out: `=`, the name again, the
operator that the sign stands for and is spelled with, on its line, and
parentheses. -/
structure WritesOut (name sign equal again operator opening closing : Token) : Prop where
  compound : (sign.kind, operator.kind) ∈ compounds
  equalKind : equal.kind = .equal
  againKind : again.kind = .identifier
  againLexeme : again.lexeme = name.lexeme
  operatorLexeme : operator.lexeme = sign.lexeme.take 1
  operatorLiteral : operator.literal = none
  operatorLine : operator.line = sign.line
  openingKind : opening.kind = .leftParen
  closingKind : closing.kind = .rightParen

/-- The operators of compound signs stand in sums or in products. -/
theorem compound_layer {k operator : Kind} (h : (k, operator) ∈ compounds) :
    ∃ layer : Layer, operator ∈ layer.operators ∧ layer.join = Expr.binary ∧ layer.rank ≤ 6 := by
  simp only [compounds, List.mem_cons, Prod.mk.injEq, List.not_mem_nil, or_false] at h
  rcases h with ⟨-, rfl⟩ | ⟨-, rfl⟩ | ⟨-, rfl⟩ | ⟨-, rfl⟩ | ⟨-, rfl⟩
  · exact ⟨.term, by decide, rfl, by decide⟩
  · exact ⟨.term, by decide, rfl, by decide⟩
  · exact ⟨.factor, by decide, rfl, by decide⟩
  · exact ⟨.factor, by decide, rfl, by decide⟩
  · exact ⟨.factor, by decide, rfl, by decide⟩

variable {name sign equal again operator opening closing : Token} {rhs : List Token} {e : Expr}

theorem WritesOut.expression (h : WritesOut name sign equal again operator opening closing)
    (hn : name.kind = .identifier) (he : Expression .assignment rhs e) :
    Expression .assignment (name :: equal :: again :: operator :: opening :: rhs ++ [closing])
      (.assign name (.binary (.var again) operator (.grouping e))) := by
  obtain ⟨layer, hk, hjoin, hrank⟩ := compound_layer h.compound
  have hvar : Expression .primary [again] (.var again) := .var h.againKind
  have hgrouping : Expression .primary (opening :: rhs ++ [closing]) (.grouping e) :=
    .grouping h.openingKind he h.closingKind
  have hprimary : Layer.rank .primary = 8 := rfl
  have hne : layer ≠ .primary := by
    rintro rfl
    omega
  have htighter := Layer.rank_tighter hne
  have hjoined := Expression.joined hk (hvar.loosen (8 - layer.rank) (by omega))
    (hgrouping.loosen (7 - layer.rank) (by omega))
  rw [hjoin] at hjoined
  exact .assign hn h.equalKind (hjoined.loosen layer.rank (Nat.zero_add _))

theorem WritesOut.replaces (h : WritesOut name sign equal again operator opening closing) (e : Expr) :
    Replaces (compoundTree name sign operator.kind e) (.assign name (.binary (.var again) operator (.grouping e))) :=
  ⟨.compound (.refl name) h.againLexeme ⟨rfl, h.operatorLexeme, h.operatorLiteral, h.operatorLine⟩
      (.grouped (.refl Token.Same.refl e)),
    by simp [compoundTree], by simp⟩

end Grammar

/-! ## Programs that correspond -/

/-- The watchers, who want no log. -/
theorem narrows_unlogged (watchers : Watchers) : Narrows (!·.isLogged) watchers { watchers with logger := none } where
  logged _ := (Bool.and_false _).symm
  reported _ := (Bool.and_true _).symm
  reader := rfl
  read _ := rfl
  readFailed _ := rfl
  printer := .inl ⟨rfl, fun _ => rfl⟩

namespace Program

open Grammar TokenReader

variable {p q : Program}

/-- Reading an accepted program shows nothing but logs. -/
theorem showReading_accepted {watchers : Watchers} (h : p.accepted = true) (hl : watchers.logger = none) :
    p.showReading watchers = pure ⟨⟩ := by
  obtain ⟨hd, ht⟩ := List.append_eq_nil_iff.1 (diagnostics_eq_nil h)
  unfold showReading log
  simp only [hd, ht, hl, reportAll, Option.any_none, Bool.false_eq_true, if_false, pure_bind, ite_self]

/-- Accepted programs whose statements correspond run alike, the log aside. -/
theorem run_corresponding (hp : p.accepted = true) (hq : q.accepted = true)
    (h : offsets.Phrases (.items p.statements) (.items q.statements)) (watchers : Watchers) (rounds : Nat)
    (replies : List Reply) :
    (q.run watchers rounds replies).outcome = (p.run watchers rounds replies).outcome ∧
      (q.run watchers rounds replies).unread = (p.run watchers rounds replies).unread ∧
      (q.run watchers rounds replies).events.filter (!·.isLogged) =
        (p.run watchers rounds replies).events.filter (!·.isLogged) := by
  have hexecution : q.execution { watchers with logger := none } rounds =
      p.execution { watchers with logger := none } rounds := by
    unfold execution
    rw [showReading_accepted hp rfl, showReading_accepted hq rfl, hp, hq, if_pos rfl, if_pos rfl, pure_bind, pure_bind]
    exact interpreted_eq _ h rounds
  have hquiet : q.run { watchers with logger := none } rounds replies =
      p.run { watchers with logger := none } rounds replies := by
    rw [run, run, hexecution]
  rw [(narrows_unlogged watchers).run, (narrows_unlogged watchers).run] at hquiet
  obtain ⟨houtcome, hevents, hunread⟩ := RunResult.mk.inj hquiet
  exact ⟨houtcome, hunread, hevents⟩

/-- Compound assignment means its expansion. Wherever the tokens of an accepted
program have a name, a compound sign and, right after it, what is read as the
value assigned, they may have the name, `=`, the name, the operator and the
value in parentheses instead, at whichever offsets: this program is accepted
too, and for all watchers and every input it prints, reads and reports the same
and ends the same. -/
theorem compound_means_expansion (scanned expanded : Scanned) (shift : Nat → Nat) {before rhs after : List Token}
    {name sign equal again operator opening closing : Token} {e : Expr} (hends : EndsOnce scanned.tokens)
    (haccepted : (ofScanned scanned).accepted = true)
    (htokens : scanned.tokens = before ++ name :: sign :: (rhs ++ after))
    (hrhs : Reads (Expr.readWithin (2 * scanned.tokens.length)) (rhs ++ after) e after)
    (hout : WritesOut name sign equal again operator opening closing) (hclean : expanded.diagnostics = [])
    (hexpanded : expanded.tokens =
      (before ++ name :: equal :: again :: operator :: opening :: (rhs ++ closing :: after)).map (Token.moved shift)) :
    (ofScanned expanded).accepted = true ∧ ∀ watchers rounds replies,
      let result := (ofScanned scanned).run watchers rounds replies
      let result' := (ofScanned expanded).run watchers rounds replies
      result'.outcome = result.outcome ∧ result'.unread = result.unread ∧
        result'.events.filter (!·.isLogged) = result.events.filter (!·.isLogged) := by
  have hprogram := isProgram_of_accepted hends haccepted
  obtain ⟨pre, name', rhs', post, e', hb, hk, ht, he, hf, hnew⟩ :=
    sites_program hprogram (before ++ [name]) sign (rhs ++ after) operator.kind ((compounds_iff _ _).1 hout.compound)
      (by simpa using htokens)
  -- what the grammar finds at the sign is what was read there
  obtain ⟨rfl, hname⟩ := List.append_inj' hb rfl
  obtain rfl : name = name' := by simpa using hname
  have hlength : 2 * rhs'.length ≤ 2 * scanned.tokens.length := by
    rw [htokens, ht]
    simp only [List.length_append, List.length_cons]
    omega
  have hread := reads_of_expression he (by simpa using hf) hlength
  rw [← ht] at hread
  obtain ⟨rfl, rfl, -⟩ := Reading.read.inj (hrhs.symm.trans hread)
  obtain rfl : rhs = rhs' := List.append_cancel_right ht
  obtain ⟨statements', hprogram', hphrases⟩ := hnew _ _ (hout.expression hk he) (hout.replaces e)
  -- the same tokens without the shift
  let unmoved : Scanned := { expanded with
    tokens := before ++ name :: equal :: again :: operator :: opening :: (rhs ++ closing :: after) }
  have hunmoved : IsProgram unmoved.tokens statements' := by simpa [unmoved] using hprogram'
  have hclean' : unmoved.diagnostics = [] := hclean
  obtain ⟨haccepted', hstatements⟩ := accepted_of_isProgram hclean' hunmoved
  have hrelocated : Relocated shift (ofScanned unmoved) (ofScanned expanded) :=
    relocated_ofScanned hexpanded rfl rfl
  refine ⟨by rw [accepted, hrelocated.diagnostics_eq]; exact haccepted', fun watchers rounds replies => ?_⟩
  rw [hrelocated.run_eq]
  rw [← hstatements] at hphrases
  exact run_corresponding haccepted haccepted' hphrases watchers rounds replies

/-- `x /= x = 2`: the old value is divided by the one that the value assigned has
just given the variable. -/
theorem compound_means_expansion_quotient :
    let compound : Text := "SUGOD\nMUGNA NUMERO x = 7\nIPAKITA: x /= x = 2\nKATAPUSAN"
    let expanded : Text := "SUGOD\nMUGNA NUMERO x = 7\nIPAKITA: x = x / (x = 2)\nKATAPUSAN"
    (ofSource compound).accepted = true ∧ (ofSource expanded).accepted = true ∧
      ((ofSource compound).run {} 0 []).events = [.printed "3"] ∧
      ((ofSource expanded).run {} 0 []).events.filter (!·.isLogged) = [.printed "3"] := by
  intro compound expanded
  let t (line : Nat) (k : Kind) (lexeme : Text) (pos : Nat) : Token :=
    { kind := k, lexeme := lexeme, line := line, pos := some pos }
  let number (line : Nat) (lexeme : Text) (i : Int64) (pos : Nat) : Token :=
    { t line .number lexeme pos with literal := some (.numero i) }
  let before := [t 1 .sugod "SUGOD" 0, t 1 .newline "\n" 5, t 2 .mugna "MUGNA" 6, t 2 .numero "NUMERO" 12,
    t 2 .identifier "x" 19, t 2 .equal "=" 21, number 2 "7" 7 23, t 2 .newline "\n" 24, t 3 .ipakita "IPAKITA" 25,
    t 3 .colon ":" 32]
  let rhs := [t 3 .identifier "x" 39, t 3 .equal "=" 41, number 3 "2" 2 43]
  let after := [t 3 .newline "\n" 44, t 4 .katapusan "KATAPUSAN" 45, t 4 .eof "" 54]
  let name := t 3 .identifier "x" 34
  let sign := t 3 .slashEqual "/=" 36
  -- the tokens written in have offsets over a hundred before the shift
  let equal := t 3 .equal "=" 136
  let again := t 3 .identifier "x" 138
  let operator := t 3 .slash "/" 140
  let opening := t 3 .leftParen "(" 142
  let closing := t 3 .rightParen ")" 148
  let shift (pos : Nat) : Nat :=
    if pos < 39 then pos else if pos < 44 then pos + 4 else if pos < 100 then pos + 5 else pos - 100
  let scanned : Scanned :=
    { tokens := before ++ name :: sign :: (rhs ++ after), diagnostics := [], lastLine := 4 }
  let scanned' : Scanned :=
    { tokens := (before ++ name :: equal :: again :: operator :: opening :: (rhs ++ closing :: after)).map
        (Token.moved shift), diagnostics := [], lastLine := 4 }
  have hscanned : scan compound = scanned := by decide +kernel
  have hscanned' : scan expanded = scanned' := by decide +kernel
  rw [ofSource, ofSource, hscanned, hscanned']
  have hends : EndsOnce scanned.tokens := ⟨scanned.tokens.dropLast, t 4 .eof "" 54, rfl, rfl, by decide⟩
  have haccepted : (ofScanned scanned).accepted = true := by decide +kernel
  have hrhs : Reads (Expr.readWithin (2 * scanned.tokens.length)) (rhs ++ after)
      (.assign (t 3 .identifier "x" 39) (.literal (.numero 2))) after := rfl
  have hout : WritesOut name sign equal again operator opening closing :=
    ⟨by decide, rfl, rfl, rfl, by decide, rfl, rfl, rfl, rfl⟩
  have hrun : ((ofScanned scanned).run {} 0 []).events = [.printed "3"] := by decide +kernel
  obtain ⟨haccepted', hsame⟩ :=
    compound_means_expansion scanned scanned' shift hends haccepted rfl hrhs hout rfl rfl
  exact ⟨haccepted, haccepted', hrun, (hsame {} 0 []).2.2.trans (by rw [hrun]; rfl)⟩

end Program

end BisayaPlus
