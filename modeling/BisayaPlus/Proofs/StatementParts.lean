import BisayaPlus.Proofs.ExpressionGrammar
/-!
# The parts of statements follow the grammar

Terminators, conditions, declared names, lists of names and the header of a
counted loop. For each part: what its reader takes is such a part, and every
such part is taken whole.
-/

set_option autoImplicit false

namespace BisayaPlus.Grammar

open TokenReader Stmt

/-! ## Newlines -/

theorem afterNewlines_newline {t : Token} (h : t.kind = .newline) (ts : List Token) :
    afterNewlines (t :: ts) = afterNewlines ts := by
  simp [afterNewlines, h]

theorem afterNewlines_of_ne {ts : List Token} (h : nextKind ts ≠ .newline) : afterNewlines ts = ts := by
  cases ts with
  | nil => rfl
  | cons t ts =>
    rw [nextKind_cons] at h
    simp [afterNewlines, h]

theorem afterNewlines_spec (ts : List Token) :
    ∃ blank, Blank blank ∧ ts = blank ++ afterNewlines ts ∧ nextKind (afterNewlines ts) ≠ .newline := by
  induction ts with
  | nil => exact ⟨[], by simp [Blank], rfl, by simp [afterNewlines]⟩
  | cons t ts ih =>
    by_cases h : t.kind = .newline
    · obtain ⟨blank, hb, he, hn⟩ := ih
      rw [afterNewlines_newline h]
      refine ⟨t :: blank, ?_, by rw [List.cons_append, ← he], hn⟩
      intro u hu
      rcases List.mem_cons.1 hu with rfl | hu
      · exact h
      · exact hb u hu
    · rw [afterNewlines_of_ne (show nextKind (t :: ts) ≠ .newline from h)]
      exact ⟨[], by simp [Blank], rfl, h⟩

theorem afterNewlines_append {blank rest : List Token} (hb : Blank blank) (hn : nextKind rest ≠ .newline) :
    afterNewlines (blank ++ rest) = rest := by
  induction blank with
  | nil => exact afterNewlines_of_ne hn
  | cons t blank ih =>
    rw [List.cons_append, afterNewlines_newline (hb t (by simp))]
    exact ih fun u hu => hb u (by simp [hu])

/-- A kind leads if it stands right after the newlines. -/
theorem leads_iff {kind : Kind} (hk : kind ≠ .newline) (he : kind ≠ .eof) (ts : List Token) :
    Leads kind ts ↔ nextKind (afterNewlines ts) = kind := by
  constructor
  · rintro ⟨blank, t, rest, hb, rfl, rfl⟩
    rw [afterNewlines_append hb (by simpa using hk), nextKind_cons]
  · intro h
    obtain ⟨blank, hb, hts, -⟩ := afterNewlines_spec ts
    cases hr : afterNewlines ts with
    | nil =>
      rw [hr, nextKind_nil] at h
      exact absurd h.symm he
    | cons t rest =>
      rw [hr] at h hts
      exact ⟨blank, t, rest, hb, h, hts⟩

/-! ## Terminators -/

theorem reads_endStatement {ts rest : List Token} {u : PUnit} :
    Reads endStatement ts u rest ↔
      (∃ t, ts = t :: rest ∧ t.kind = .newline) ∨ (ts = rest ∧ endsBlock (nextKind ts) = true) := by
  rw [endStatement, reads_bind]
  constructor
  · rintro ⟨o, mid, ho, hr⟩
    cases o with
    | some t =>
      obtain ⟨rfl, hk⟩ := reads_take?_some.1 ho
      obtain ⟨-, rfl⟩ := reads_pure.1 hr
      exact .inl ⟨t, rfl, by simpa using hk⟩
    | none =>
      obtain ⟨rfl, -⟩ := (reads_take?_none rfl).1 ho
      rw [reads_peek] at hr
      split at hr
      · next h =>
        obtain ⟨-, rfl⟩ := reads_pure.1 hr
        exact .inr ⟨rfl, h⟩
      · exact absurd hr reads_stuckHere
  · rintro (⟨t, rfl, hk⟩ | ⟨rfl, hk⟩)
    · exact ⟨some t, rest, reads_take?_some.2 ⟨rfl, by simp [hk]⟩, reads_pure.2 ⟨rfl, rfl⟩⟩
    · have hn : (nextKind ts == .newline) = false := by
        cases hc : nextKind ts <;> simp_all [endsBlock]
      refine ⟨none, ts, (reads_take?_none rfl).2 ⟨rfl, hn⟩, reads_peek.2 ?_⟩
      rw [if_pos (by simpa [nextKind] using hk)]
      exact reads_pure.2 ⟨rfl, rfl⟩

/-- A simple statement ends at its line, or before the end of its block or of
the program; the end of the tokens is left aside. -/
theorem terminator_of_reads {ts rest : List Token} {u : PUnit} (h : Reads endStatement ts u rest)
    (he : nextKind rest ≠ .eof) : ∃ stop, ts = stop ++ rest ∧ Terminator stop rest := by
  rcases reads_endStatement.1 h with ⟨t, rfl, hk⟩ | ⟨rfl, hk⟩
  · exact ⟨[t], rfl, .line hk⟩
  · cases ts with
    | nil => exact absurd rfl he
    | cons t ts =>
      refine ⟨[], rfl, .before ?_⟩
      rw [nextKind_cons] at hk he
      cases hc : t.kind <;> simp_all [endsBlock]

theorem reads_of_terminator {stop next : List Token} (h : Terminator stop next) :
    Reads endStatement (stop ++ next) ⟨⟩ next := by
  rw [reads_endStatement]
  cases h with
  | line hk => exact .inl ⟨_, rfl, hk⟩
  | before hk =>
    simp only [List.mem_cons, List.not_mem_nil, or_false] at hk
    exact .inr ⟨rfl, by rcases hk with hk | hk <;> simp [hk, endsBlock]⟩

theorem Terminator.follows {stop next : List Token} (h : Terminator stop next) :
    Follows .assignment (stop ++ next) := by
  cases h with
  | line hk => simp [Follows, hk, followRank]
  | before hk =>
    simp only [List.mem_cons, List.not_mem_nil, or_false] at hk
    rcases hk with hk | hk <;> simp [Follows, hk, followRank]

theorem follows_of_kind {t : Token} {rest : List Token} (h : followRank t.kind = 0) :
    Follows .assignment (t :: rest) := by
  rw [Follows, nextKind_cons, h]
  exact Nat.zero_le _

/-! ## Conditions -/

theorem condition_of_reads {expression : TokenReader Expr} (hx : Sound expression .assignment) {ts rest : List Token}
    {e : Expr} (h : Reads (readCondition expression) ts e rest) : ∃ cs, ts = cs ++ rest ∧ Condition cs e := by
  rw [readCondition, reads_expect] at h
  obtain ⟨opening, mid, rfl, ho, h⟩ := h
  obtain ⟨e', mid', h1, h2⟩ := reads_bind.1 h
  obtain ⟨closing, mid'', rfl, hc, h3⟩ := reads_expect.1 h2
  obtain ⟨rfl, rfl⟩ := reads_pure.1 h3
  obtain ⟨taken, rfl, he⟩ := hx _ _ _ h1
  exact ⟨opening :: taken ++ [closing], by simp, .mk ho he hc⟩

theorem reads_of_condition {cs rest : List Token} {e : Expr} (h : Condition cs e) {budget : Nat}
    (hb : 2 * cs.length ≤ budget) : Reads (readCondition (Expr.readWithin budget)) (cs ++ rest) e rest := by
  cases h with
  | @mk opening closing ts e ho he hc =>
    simp only [List.cons_append, List.length_cons, List.length_append, List.length_nil] at hb
    have hf : Follows .assignment (closing :: rest) := follows_of_kind (by rw [hc]; rfl)
    have hi := reads_of_expression he hf (show 2 * ts.length ≤ budget by omega)
    simp only [List.cons_append, List.append_assoc, List.nil_append]
    refine reads_expect.2 ⟨opening, _, rfl, ho, .bind hi ?_⟩
    exact reads_expect.2 ⟨closing, rest, rfl, hc, reads_pure.2 ⟨rfl, rfl⟩⟩

/-! ## Declared names -/

theorem truth?_iff (t : Text) (b : Bool) : Value.truth? t = some b ↔ t = Value.truthName b := by
  have hne : Value.truthName true ≠ Value.truthName false := by decide
  unfold Value.truth?
  cases b <;> grind

/-- A literal that fits its type, the spelling of a truth value aside. -/
theorem initial_of_fits {declared : DataType} {v : Value} (h : literalFits declared v = true)
    (ht : ∀ t, declared = .tinuod → v ≠ .pulong t) : Initial declared (.literal v) (.literal v) := by
  cases v with
  | null => exact .null
  | numero i =>
    cases declared with
    | numero => exact .numero
    | tipik => exact .whole
    | _ => exact (Bool.false_ne_true h).elim
  | tipik x =>
    cases declared with
    | tipik => exact .tipik
    | _ => exact (Bool.false_ne_true h).elim
  | letra code =>
    cases declared with
    | letra => exact .letra
    | _ => exact (Bool.false_ne_true h).elim
  | tinuod b =>
    cases declared with
    | tinuod => exact .tinuod
    | _ => exact (Bool.false_ne_true h).elim
  | pulong t =>
    cases declared with
    | tinuod => exact absurd rfl (ht t rfl)
    | _ => exact (Bool.false_ne_true h).elim

/-- The check of an initial value lets exactly the initial values of the type
pass, and keeps what they stand for. -/
theorem reads_checkInitializer {declared : DataType} {start : Token} {e kept : Expr} {ts rest : List Token} :
    Reads (checkInitializer declared start e) ts kept rest ↔ ts = rest ∧ Initial declared e kept := by
  constructor
  · intro h
    unfold checkInitializer at h
    split at h
    · obtain ⟨rfl, rfl⟩ := reads_pure.1 h
      exact ⟨rfl, .null⟩
    · next t =>
      cases hb : Value.truth? t with
      | none => rw [hb] at h; exact absurd h reads_stuckAt
      | some b =>
        rw [hb] at h
        obtain ⟨rfl, rfl⟩ := reads_pure.1 h
        obtain rfl := (truth?_iff t b).1 hb
        exact ⟨rfl, .spelled⟩
    · next value hn ht =>
      split at h
      · next hf =>
        obtain ⟨rfl, rfl⟩ := reads_pure.1 h
        exact ⟨rfl, initial_of_fits hf ht⟩
      · exact absurd h reads_stuckAt
    · next hl _ =>
      obtain ⟨rfl, rfl⟩ := reads_pure.1 h
      exact ⟨rfl, .computed hl⟩
  · rintro ⟨rfl, h⟩
    cases h with
    | null => cases declared <;> exact reads_pure.2 ⟨rfl, rfl⟩
    | @spelled b =>
      simp only [checkInitializer, (truth?_iff (Value.truthName b) b).2 rfl]
      exact reads_pure.2 ⟨rfl, rfl⟩
    | computed hc =>
      cases e with
      | literal v => exact absurd rfl (hc v)
      | _ => cases declared <;> exact reads_pure.2 ⟨rfl, rfl⟩
    | _ => exact reads_pure.2 ⟨rfl, rfl⟩

/-- A name and what the reader of its initial value makes of the tokens after
it. -/
theorem declared_of_reads {expression : TokenReader Expr} (hx : Sound expression .assignment) {declared : DataType}
    {name : Token} (hn : name.kind = .identifier) {ts rest : List Token} {initial : Option Expr}
    (h : Reads (readInitializer declared expression) ts initial rest) :
    ∃ taken, ts = taken ++ rest ∧ Declared declared (name :: taken) (name, initial) := by
  rw [readInitializer, reads_bind] at h
  obtain ⟨o, mid, ho, h⟩ := h
  cases o with
  | none =>
    obtain ⟨rfl, -⟩ := (reads_take?_none rfl).1 ho
    obtain ⟨rfl, rfl⟩ := reads_pure.1 h
    exact ⟨[], rfl, .bare hn⟩
  | some sign =>
    obtain ⟨rfl, hs⟩ := reads_take?_some.1 ho
    obtain ⟨e, mid', h1, h2⟩ := reads_bind.1 (reads_peek.1 h)
    obtain ⟨kept, mid'', h3, h4⟩ := reads_bind.1 h2
    obtain ⟨rfl, hi⟩ := reads_checkInitializer.1 h3
    obtain ⟨rfl, rfl⟩ := reads_pure.1 h4
    obtain ⟨taken, rfl, he⟩ := hx _ _ _ h1
    exact ⟨sign :: taken, by simp, .initialized hn (by simpa using hs) he hi⟩

theorem reads_of_declared {declared : DataType} {ts rest : List Token} {item : Token × Option Expr}
    (h : Declared declared ts item) (hf : Follows .assignment rest) {budget : Nat} (hb : 2 * ts.length ≤ budget) :
    ∃ taken, ts = item.1 :: taken ∧ item.1.kind = .identifier ∧
      Reads (readInitializer declared (Expr.readWithin budget)) (taken ++ rest) item.2 rest := by
  cases h with
  | bare hn =>
    have hs : (nextKind rest == .equal) = false := by
      have := hf.not_assignment
      simp only [Expr.isAssignment, Bool.or_eq_false_iff] at this
      exact this.1
    exact ⟨[], rfl, hn, .bind ((reads_take?_none rfl).2 ⟨rfl, hs⟩) (reads_pure.2 ⟨rfl, rfl⟩)⟩
  | @initialized name sign ts e kept hn hs he hi =>
    simp only [List.length_cons] at hb
    refine ⟨sign :: ts, rfl, hn, .bind (reads_take?_some.2 ⟨rfl, by simp [hs]⟩) (reads_peek.2 ?_)⟩
    refine .bind (reads_of_expression he hf (by omega)) ?_
    exact .bind (reads_checkInitializer.2 ⟨rfl, hi⟩) (reads_pure.2 ⟨rfl, rfl⟩)

theorem names_of_reads {expression : TokenReader Expr} (hx : Sound expression .assignment) {declared : DataType}
    (bound : Nat) : ∀ seen ts names rest, ts.length < bound →
      Reads (readDeclared declared false expression bound seen) ts names rest →
      (∃ taken, ts = taken ++ rest ∧ Separated (Declared declared) taken names) ∧
        (names.map (·.1.lexeme)).Nodup ∧ ∀ n ∈ names.map (·.1.lexeme), n ∉ seen := by
  induction bound with
  | zero => intro _ _ _ _ hb; exact absurd hb (by omega)
  | succ bound ih =>
    intro seen ts names rest hb h
    rw [readDeclared, reads_expect] at h
    obtain ⟨name, mid, rfl, hn, h⟩ := h
    rw [List.length_cons] at hb
    dsimp only at h
    split at h
    · obtain ⟨_, _, hnote, -⟩ := reads_bind.1 h
      exact absurd hnote reads_note
    · next hseen =>
      obtain ⟨initial, mid, h1, h2⟩ := reads_bind.1 h
      obtain ⟨taken, rfl, hd⟩ := declared_of_reads hx hn h1
      rw [if_neg (by simp)] at h2
      obtain ⟨o, mid, ho, h3⟩ := reads_bind.1 h2
      cases o with
      | none =>
        obtain ⟨rfl, -⟩ := (reads_take?_none rfl).1 ho
        obtain ⟨rfl, rfl⟩ := reads_pure.1 h3
        exact ⟨⟨name :: taken, by simp, .one hd⟩, by simp, by simpa using hseen⟩
      | some comma =>
        obtain ⟨rfl, hc⟩ := reads_take?_some.1 ho
        obtain ⟨more, mid', h4, h5⟩ := reads_bind.1 h3
        obtain ⟨rfl, rfl⟩ := reads_pure.1 h5
        simp only [List.length_append, List.length_cons] at hb
        obtain ⟨⟨others, rfl, hs⟩, hnd, hns⟩ := ih _ _ _ _ (by omega) h4
        refine ⟨⟨name :: taken ++ comma :: others, by simp, .more hd (by simpa using hc) hs⟩, ?_, ?_⟩
        · rw [List.map_cons, List.nodup_cons]
          exact ⟨fun hm => hns _ hm (by simp), hnd⟩
        · intro n hm
          rcases List.mem_cons.1 (List.map_cons ▸ hm) with rfl | hm
          · simpa using hseen
          · exact fun hc => hns n hm (by simp [hc])

theorem reads_of_names {declared : DataType} {ts rest : List Token} {names : List (Token × Option Expr)}
    (h : Separated (Declared declared) ts names) (hf : Follows .assignment rest) (hc : nextKind rest ≠ .comma)
    {budget : Nat} : ∀ bound seen, 2 * ts.length ≤ budget → ts.length ≤ bound → (names.map (·.1.lexeme)).Nodup →
      (∀ n ∈ names.map (·.1.lexeme), n ∉ seen) →
      Reads (readDeclared declared false (Expr.readWithin budget) bound seen) (ts ++ rest) names rest := by
  induction h with
  | @one ts item hd =>
    intro bound seen hb hn hnd hns
    obtain ⟨taken, rfl, hk, hi⟩ := reads_of_declared hd hf hb
    obtain ⟨bound, rfl⟩ : ∃ b, bound = b + 1 := ⟨bound - 1, by simp only [List.length_cons] at hn; omega⟩
    refine reads_expect.2 ⟨item.1, _, rfl, hk, ?_⟩
    dsimp only
    rw [if_neg (by simpa using hns)]
    refine .bind hi ?_
    rw [if_neg (by simp)]
    exact .bind ((reads_take?_none rfl).2 ⟨rfl, by simpa using hc⟩) (reads_pure.2 ⟨rfl, rfl⟩)
  | @more comma ts more item items hd hk _ ih =>
    intro bound seen hb hn hnd hns
    simp only [List.length_append, List.length_cons] at hb hn
    have hfc : Follows .assignment (comma :: (more ++ rest)) := follows_of_kind (by rw [hk]; rfl)
    obtain ⟨taken, rfl, hki, hi⟩ := reads_of_declared hd hfc (show 2 * ts.length ≤ budget by omega)
    obtain ⟨bound, rfl⟩ : ∃ b, bound = b + 1 := ⟨bound - 1, by omega⟩
    simp only [List.map_cons, List.nodup_cons, List.mem_cons, forall_eq_or_imp] at hnd hns
    simp only [List.cons_append, List.append_assoc]
    refine reads_expect.2 ⟨item.1, _, rfl, hki, ?_⟩
    dsimp only
    rw [if_neg (by simpa using hns.1)]
    refine .bind hi ?_
    rw [if_neg (by simp)]
    refine .bind (reads_take?_some.2 ⟨rfl, by simp [hk]⟩) (.bind ?_ (reads_pure.2 ⟨rfl, rfl⟩))
    refine ih bound (item.1.lexeme :: seen) (by omega) (by omega) hnd.2 fun n hm hmem => ?_
    rcases List.mem_cons.1 hmem with rfl | hmem
    · exact hnd.1 hm
    · exact hns.2 n hm hmem

theorem dataType?_iff (k : Kind) (declared : DataType) : k.dataType? = some declared ↔ k = typeWord declared := by
  cases declared <;> cases k <;> simp [Kind.dataType?, typeWord]

/-- A declaration after its keyword. -/
theorem declaration_of_reads {expression : TokenReader Expr} (hx : Sound expression .assignment) {keyword : Token}
    {bound : Nat} {ts rest : List Token} {s : Stmt} (hb : ts.length < bound)
    (h : Reads (readDeclaration keyword false bound expression) ts s rest) :
    ∃ word declared taken names, ts = word :: taken ++ rest ∧ word.kind = typeWord declared ∧
      Separated (Declared declared) taken names ∧ (names.map (·.1.lexeme)).Nodup ∧
      s = .mugna keyword declared names := by
  rw [readDeclaration, reads_peek] at h
  cases ts with
  | nil => exact absurd h reads_stuckHere
  | cons word ts =>
    rw [List.headD_cons] at h
    split at h
    · exact absurd h reads_stuckHere
    · next declared hd =>
      rw [reads_skip, List.tail_cons, reads_bind] at h
      obtain ⟨names, mid, h1, h2⟩ := h
      obtain ⟨rfl, rfl⟩ := reads_pure.1 h2
      rw [List.length_cons] at hb
      obtain ⟨⟨taken, rfl, hs⟩, hnd, -⟩ := names_of_reads hx bound _ _ _ _ (by omega) h1
      exact ⟨word, declared, taken, names, rfl, (dataType?_iff _ _).1 hd, hs, hnd, rfl⟩

theorem reads_of_declaration (keyword : Token) {word : Token} {declared : DataType} {ts rest : List Token}
    {names : List (Token × Option Expr)} (hw : word.kind = typeWord declared)
    (h : Separated (Declared declared) ts names) (hnd : (names.map (·.1.lexeme)).Nodup)
    (hf : Follows .assignment rest) (hc : nextKind rest ≠ .comma) {bound budget : Nat} (hb : 2 * ts.length ≤ budget)
    (hn : ts.length ≤ bound) :
    Reads (readDeclaration keyword false bound (Expr.readWithin budget)) (word :: ts ++ rest)
      (.mugna keyword declared names) rest := by
  rw [readDeclaration, reads_peek]
  simp only [List.cons_append, List.headD_cons, (dataType?_iff _ _).2 hw]
  exact reads_skip.2 (.bind (reads_of_names h hf hc bound [] hb hn hnd (by simp)) (reads_pure.2 ⟨rfl, rfl⟩))

/-! ## Names -/

theorem inputs_of_reads (bound : Nat) : ∀ ts names rest, ts.length < bound → Reads (readNames bound) ts names rest →
    ∃ taken, ts = taken ++ rest ∧ Separated Name taken names := by
  induction bound with
  | zero => intro _ _ _ hb; exact absurd hb (by omega)
  | succ bound ih =>
    intro ts names rest hb h
    rw [readNames, reads_expect] at h
    obtain ⟨name, mid, rfl, hn, h⟩ := h
    obtain ⟨o, mid, ho, h2⟩ := reads_bind.1 h
    cases o with
    | none =>
      obtain ⟨rfl, -⟩ := (reads_take?_none rfl).1 ho
      obtain ⟨rfl, rfl⟩ := reads_pure.1 h2
      exact ⟨[name], rfl, .one (.mk hn)⟩
    | some comma =>
      obtain ⟨rfl, hc⟩ := reads_take?_some.1 ho
      obtain ⟨more, mid', h3, h4⟩ := reads_bind.1 h2
      obtain ⟨rfl, rfl⟩ := reads_pure.1 h4
      simp only [List.length_cons] at hb
      obtain ⟨taken, rfl, hs⟩ := ih _ _ _ (by omega) h3
      exact ⟨[name] ++ comma :: taken, rfl, .more (.mk hn) (by simpa using hc) hs⟩

theorem reads_of_inputs {ts rest names : List Token} (h : Separated Name ts names) (hc : nextKind rest ≠ .comma) :
    ∀ bound, ts.length ≤ bound → Reads (readNames bound) (ts ++ rest) names rest := by
  induction h with
  | one hi =>
    intro bound hb
    obtain ⟨hn⟩ := hi
    obtain ⟨bound, rfl⟩ : ∃ b, bound = b + 1 := ⟨bound - 1, by simp only [List.length_cons] at hb; omega⟩
    refine reads_expect.2 ⟨_, _, rfl, hn, ?_⟩
    exact .bind ((reads_take?_none rfl).2 ⟨rfl, by simpa using hc⟩) (reads_pure.2 ⟨rfl, rfl⟩)
  | more hi hk _ ih =>
    intro bound hb
    obtain ⟨hn⟩ := hi
    simp only [List.length_append, List.length_cons] at hb
    obtain ⟨bound, rfl⟩ : ∃ b, bound = b + 1 := ⟨bound - 1, by omega⟩
    refine reads_expect.2 ⟨_, _, rfl, hn, ?_⟩
    refine .bind (reads_take?_some.2 ⟨rfl, by simp [hk]⟩) (.bind (ih bound (by omega)) ?_)
    exact reads_pure.2 ⟨rfl, rfl⟩

/-! ## The header of a counted loop -/

theorem start_of_reads {expression : TokenReader Expr} (hx : Sound expression .assignment) {bound : Nat}
    (hb : 0 < bound) {ts rest : List Token} {start : Option Stmt}
    (h : Reads (readStart bound expression) ts start rest) :
    ∃ taken, ts = taken ++ rest ∧ Start taken start := by
  rw [readStart, reads_bind] at h
  obtain ⟨o, mid, ho, h⟩ := h
  cases o with
  | some keyword =>
    obtain ⟨rfl, hk⟩ := reads_take?_some.1 ho
    obtain ⟨s, mid', h1, h2⟩ := reads_bind.1 h
    obtain ⟨rfl, rfl⟩ := reads_pure.1 h2
    rw [readDeclaration, reads_peek] at h1
    cases mid with
    | nil => exact absurd h1 reads_stuckHere
    | cons word mid =>
      rw [List.headD_cons] at h1
      split at h1
      · exact absurd h1 reads_stuckHere
      · next declared hd =>
        rw [reads_skip, List.tail_cons, reads_bind] at h1
        obtain ⟨names, mid'', h3, h4⟩ := h1
        obtain ⟨rfl, rfl⟩ := reads_pure.1 h4
        obtain ⟨bound, rfl⟩ : ∃ b, bound = b + 1 := ⟨bound - 1, by omega⟩
        rw [readDeclared, reads_expect] at h3
        obtain ⟨name, mid'', rfl, hn, h5⟩ := h3
        rw [if_neg (by simp)] at h5
        obtain ⟨initial, mid', h6, h7⟩ := reads_bind.1 h5
        obtain ⟨rfl, rfl⟩ := reads_pure.1 h7
        obtain ⟨taken, rfl, hi⟩ := declared_of_reads hx hn h6
        exact ⟨keyword :: word :: name :: taken, rfl, .mugna (by simpa using hk) ((dataType?_iff _ _).1 hd) hi⟩
  | none =>
    obtain ⟨rfl, -⟩ := (reads_take?_none rfl).1 ho
    rw [reads_peek] at h
    split at h
    · obtain ⟨rfl, rfl⟩ := reads_pure.1 h
      exact ⟨[], rfl, .none⟩
    · obtain ⟨e, mid', h1, h2⟩ := reads_bind.1 h
      obtain ⟨rfl, rfl⟩ := reads_pure.1 h2
      obtain ⟨taken, rfl, he⟩ := hx _ _ _ h1
      exact ⟨taken, rfl, .expr he⟩

theorem starters_ne {k : Kind} (h : k ∈ starters) :
    k ≠ .mugna ∧ k ≠ .comma ∧ k ≠ .rightParen ∧ k ≠ .newline ∧ startsStatement k = false ∧ endsBlock k = false := by
  cases k <;> simp_all [starters, operandStarters, startsStatement, endsBlock]

theorem reads_of_start {ts rest : List Token} {start : Option Stmt} (h : Start ts start) {comma : Token}
    (hc : comma.kind = .comma) {bound budget : Nat} (hb : 2 * ts.length ≤ budget) (hn : 0 < bound) :
    Reads (readStart bound (Expr.readWithin budget)) (ts ++ comma :: rest) start (comma :: rest) := by
  have hf : Follows .assignment (comma :: rest) := follows_of_kind (by rw [hc]; rfl)
  cases h with
  | none =>
    refine .bind ((reads_take?_none rfl).2 ⟨rfl, by simp [hc]⟩) (reads_peek.2 ?_)
    rw [if_pos (by simpa using hc)]
    exact reads_pure.2 ⟨rfl, rfl⟩
  | @mugna keyword word declared ts item hk hw hd =>
    simp only [List.length_cons] at hb
    obtain ⟨taken, rfl, hi, hr⟩ := reads_of_declared hd hf (show 2 * ts.length ≤ budget by omega)
    obtain ⟨bound, rfl⟩ : ∃ b, bound = b + 1 := ⟨bound - 1, by omega⟩
    simp only [List.cons_append]
    refine .bind (reads_take?_some.2 ⟨rfl, by simp [hk]⟩) (.bind ?_ (reads_pure.2 ⟨rfl, rfl⟩))
    rw [readDeclaration, reads_peek]
    simp only [List.headD_cons, (dataType?_iff _ _).2 hw]
    refine reads_skip.2 (.bind (reads_expect.2 ⟨item.1, _, rfl, hi, ?_⟩) (reads_pure.2 ⟨rfl, rfl⟩))
    rw [if_neg (by simp)]
    exact .bind hr (reads_pure.2 ⟨rfl, rfl⟩)
  | @expr ts e he =>
    obtain ⟨hs, hne⟩ := expression_starts he
    obtain ⟨hm, hcm, -⟩ := starters_ne hs
    rw [← nextKind_append hne (comma :: rest)] at hm hcm
    refine .bind ((reads_take?_none rfl).2 ⟨rfl, by simpa using hm⟩) (reads_peek.2 ?_)
    rw [if_neg (by simpa [nextKind] using hcm)]
    exact .bind (reads_of_expression he hf hb) (reads_pure.2 ⟨rfl, rfl⟩)

theorem optional_of_reads {expression : TokenReader Expr} (hx : Sound expression .assignment) {kind : Kind}
    {ts rest : List Token} {e : Option Expr} (h : Reads (readUnless kind expression) ts e rest) :
    ∃ taken, ts = taken ++ rest ∧ Optional taken e := by
  rw [readUnless, reads_peek] at h
  split at h
  · obtain ⟨rfl, rfl⟩ := reads_pure.1 h
    exact ⟨[], rfl, .none⟩
  · obtain ⟨e, mid, h1, h2⟩ := reads_bind.1 h
    obtain ⟨rfl, rfl⟩ := reads_pure.1 h2
    obtain ⟨taken, rfl, he⟩ := hx _ _ _ h1
    exact ⟨taken, rfl, .some he⟩

theorem reads_of_optional {ts rest : List Token} {e : Option Expr} (h : Optional ts e) {t : Token}
    (ht : t.kind ∈ [Kind.comma, .rightParen]) {budget : Nat} (hb : 2 * ts.length ≤ budget) :
    Reads (readUnless t.kind (Expr.readWithin budget)) (ts ++ t :: rest) e (t :: rest) := by
  simp only [List.mem_cons, List.not_mem_nil, or_false] at ht
  cases h with
  | none =>
    refine reads_peek.2 ?_
    rw [if_pos (by simp)]
    exact reads_pure.2 ⟨rfl, rfl⟩
  | some he =>
    obtain ⟨hs, hne⟩ := expression_starts he
    have hne' := starters_ne hs
    rw [← nextKind_append hne (t :: rest)] at hne'
    have hf : Follows .assignment (t :: rest) := follows_of_kind (by rcases ht with ht | ht <;> rw [ht] <;> rfl)
    refine reads_peek.2 ?_
    rw [if_neg]
    · exact .bind (reads_of_expression he hf hb) (reads_pure.2 ⟨rfl, rfl⟩)
    · rcases ht with ht | ht <;> rw [ht]
      · exact hne'.2.1
      · exact hne'.2.2.1

end BisayaPlus.Grammar
