import BisayaPlus.Proofs.CorrespondingRuns
import BisayaPlus.Proofs.StatementParts
/-!
# Compound assignments in a phrase

Wherever a sign of compound assignment stands in a phrase, a name stands before
it and a complete expression after it. If the assignment is replaced by another
one to the same name, the tokens are still a phrase of the same form, and its
tree has the tree of the new assignment in the place of the old one.
-/

set_option autoImplicit false

namespace BisayaPlus.Grammar

open Correspondence

/-! ## Sites -/

/-- No sign of compound assignment is among the tokens. -/
def Plain (ts : List Token) : Prop := ∀ t ∈ ts, Expr.compound? t.kind = none

theorem Plain.nil : Plain [] := List.forall_mem_nil _

theorem Plain.cons {t : Token} {ts : List Token} {k : Kind} (h : t.kind = k) (hk : Expr.compound? k = none)
    (hs : Plain ts) : Plain (t :: ts) :=
  List.forall_mem_cons.2 ⟨h ▸ hk, hs⟩

/-- The token is of one of these kinds, none of which is a sign. -/
theorem Plain.cons_mem {t : Token} {ts : List Token} {kinds : List Kind} (h : t.kind ∈ kinds)
    (hk : ∀ k ∈ kinds, Expr.compound? k = none) (hs : Plain ts) : Plain (t :: ts) :=
  .cons rfl (hk _ h) hs

theorem Plain.append {ts us : List Token} (h : Plain ts) (h' : Plain us) : Plain (ts ++ us) :=
  List.forall_mem_append.2 ⟨h, h'⟩

/-- The expressions correspond up to the offsets of their tokens, and neither is a
literal. -/
structure Replaces (e e' : Expr) : Prop where
  exprs : offsets.Exprs e e'
  computed : ∀ v, e ≠ .literal v
  computed' : ∀ v, e' ≠ .literal v

/-- The tree of a compound assignment. -/
def compoundTree (name sign : Token) (operator : Kind) (e : Expr) : Expr :=
  .assign name (.binary (.var name) (Expr.compoundOperator operator sign) e)

/-- `Sites ts next N`: at each sign of compound assignment in `ts`, with `next`
after `ts`, there is a name and a complete expression, and `N` holds of the
tokens with a corresponding assignment to the name in place of this one. -/
def Sites (ts next : List Token) (N : List Token → Prop) : Prop :=
  ∀ before sign tail operator, Expr.compound? sign.kind = some operator → ts = before ++ sign :: tail →
    ∃ pre name rhs post e, before = pre ++ [name] ∧ name.kind = .identifier ∧ tail = rhs ++ post ∧
      Expression .assignment rhs e ∧ Follows .assignment (post ++ next) ∧
      ∀ new e', Expression .assignment (name :: new) e' → Replaces (compoundTree name sign operator e) e' →
        N (pre ++ name :: new ++ post)

/-- Tokens that are the same up to one that is no newline. -/
def SameLead (ts ts' : List Token) : Prop :=
  ∃ pre t rest rest', t.kind ≠ .newline ∧ ts = pre ++ t :: rest ∧ ts' = pre ++ t :: rest'

theorem SameLead.append {ts ts' : List Token} (h : SameLead ts ts') (us : List Token) :
    SameLead (us ++ ts) (us ++ ts') := by
  obtain ⟨pre, t, rest, rest', hk, rfl, rfl⟩ := h
  exact ⟨us ++ pre, t, rest, rest', hk, by simp, by simp⟩

section Sites

variable {ts us next : List Token} {N N' : List Token → Prop}

theorem Sites.mono (h : Sites ts next N) (hn : ∀ ts', N ts' → N' ts') : Sites ts next N' := by
  intro before sign tail operator hs hts
  obtain ⟨pre, name, rhs, post, e, hb, hk, ht, he, hf, hnew⟩ := h before sign tail operator hs hts
  exact ⟨pre, name, rhs, post, e, hb, hk, ht, he, hf, fun new e' h' hr => hn _ (hnew new e' h' hr)⟩

theorem sites_plain (h : Plain ts) : Sites ts next N := by
  rintro before sign tail operator hs rfl
  have hplain : Expr.compound? sign.kind = none := h sign (by simp)
  rw [hplain] at hs
  cases hs

/-- Before the site and at its name the tokens stay the same. -/
theorem Sites.lead (h : Sites ts next N) : Sites ts next fun ts' => N ts' ∧ SameLead (ts ++ next) (ts' ++ next) := by
  rintro before sign tail operator hs rfl
  obtain ⟨pre, name, rhs, post, e, rfl, hk, rfl, he, hf, hnew⟩ := h _ sign tail operator hs rfl
  refine ⟨pre, name, rhs, post, e, rfl, hk, rfl, he, hf, fun new e' h' hr => ⟨hnew new e' h' hr, ?_⟩⟩
  exact ⟨pre, name, sign :: (rhs ++ (post ++ next)), new ++ (post ++ next), by simp [hk], by simp, by simp⟩

/-- A site stands in the first part or in the second. -/
theorem Sites.append (h : Sites ts (us ++ next) fun ts' => N (ts' ++ us))
    (h' : Sites us next fun us' => N (ts ++ us')) : Sites (ts ++ us) next N := by
  intro before sign tail operator hs hts
  rcases List.append_eq_append_iff.1 hts with ⟨front, rfl, hus⟩ | ⟨back, hts', htail⟩
  · obtain ⟨pre, name, rhs, post, e, rfl, hk, rfl, he, hf, hnew⟩ := h' front sign tail operator hs hus
    refine ⟨ts ++ pre, name, rhs, post, e, by simp, hk, rfl, he, hf, fun new e' hexpr hr => ?_⟩
    simpa using hnew new e' hexpr hr
  · cases back with
    | nil =>
      -- the second part starts with the sign, and no name before it
      obtain ⟨pre, name, rhs, post, e, hb, -⟩ := h' [] sign tail operator hs htail.symm
      simp at hb
    | cons first back =>
      obtain ⟨rfl, rfl⟩ := List.cons.inj htail
      obtain ⟨pre, name, rhs, post, e, hb, hk, rfl, he, hf, hnew⟩ := h before sign back operator hs hts'
      refine ⟨pre, name, rhs, post ++ us, e, hb, hk, by simp, he, by simpa using hf, fun new e' hexpr hr => ?_⟩
      simpa using hnew new e' hexpr hr

theorem Sites.behind {ps : List Token} (hp : Plain ps) (h : Sites ts next fun ts' => N (ps ++ ts')) :
    Sites (ps ++ ts) next N :=
  (sites_plain hp).append h

theorem Sites.before {ps : List Token} (hp : Plain ps) (h : Sites ts (ps ++ next) fun ts' => N (ts' ++ ps)) :
    Sites (ts ++ ps) next N :=
  h.append (sites_plain hp)

end Sites

/-! ## Expressions -/

theorem Layer.tighter_ne (layer : Layer) : layer.tighter ≠ .assignment := by
  cases layer <;> decide

theorem Layer.ne_of_operator {layer : Layer} {k : Kind} (h : k ∈ layer.operators) : layer ≠ .assignment := by
  rintro rfl
  cases h

theorem Layer.plain_operator {layer : Layer} {t : Token} (h : t.kind ∈ layer.operators) : Plain [t] :=
  .cons_mem h (by cases layer <;> decide) .nil

theorem Layer.replaces_join {layer : Layer} {l l' r r' : Expr} {t : Token} (hl : offsets.Exprs l l')
    (hr : offsets.Exprs r r') : Replaces (layer.join l t r) (layer.join l' t r') := by
  cases layer <;> exact ⟨by first | exact .logical hl (.refl t) hr | exact .binary hl (.refl t) hr, by simp [join],
    by simp [join]⟩

theorem sites_parenthesized {opening closing : Token} {ts next : List Token} {N : List Token → Prop}
    (ho : opening.kind = .leftParen) (hc : closing.kind = .rightParen)
    (h : Sites ts (closing :: next) fun ts' => N (opening :: ts' ++ [closing])) :
    Sites (opening :: ts ++ [closing]) next N :=
  Sites.before (.cons hc rfl .nil) (Sites.behind (.cons ho rfl .nil) h)

/-- By induction on the expression. Only an assignment may end with one, so only
what follows an assignment matters. -/
theorem sites_expression {layer : Layer} {ts : List Token} {e : Expr} (h : Expression layer ts e) :
    ∀ {next : List Token}, (layer = .assignment → Follows .assignment next) →
      Sites ts next fun ts' => ∃ e', Expression layer ts' e' ∧ Replaces e e' := by
  have hrefl : ∀ e, offsets.Exprs e e := .refl Token.Same.refl
  induction h with
  | @tighter layer ts e hl h ih =>
    intro next _
    refine (ih fun heq => absurd heq layer.tighter_ne).mono ?_
    rintro ts' ⟨e', h', hr⟩
    exact ⟨e', .tighter hl h', hr⟩
  | @assign name sign ts e hn hs h ih =>
    intro next hf
    refine Sites.behind (.cons hn rfl (.cons hs rfl .nil)) ((ih hf).mono ?_)
    rintro ts' ⟨e', h', hr⟩
    exact ⟨.assign name e', .assign hn hs h', .assign (.refl name) hr.exprs, by simp, by simp⟩
  | @compound name sign operator ts e hn hs h ih =>
    intro next hf before sign' tail operator' hs' hts
    cases before with
    | nil =>
      obtain ⟨rfl, -⟩ := List.cons.inj hts
      rw [hn] at hs'
      cases hs'
    | cons first before =>
      obtain ⟨rfl, hrest⟩ := List.cons.inj hts
      cases before with
      | nil =>
        -- the assignment itself
        obtain ⟨rfl, rfl⟩ := List.cons.inj hrest
        obtain rfl : operator' = operator := Option.some.inj (hs'.symm.trans ((compounds_iff _ _).1 hs))
        exact ⟨[], name, ts, [], e, rfl, hn, (List.append_nil _).symm, h, hf rfl,
          fun new e' h' hr => ⟨e', by simpa using h', hr⟩⟩
      | cons second before =>
        obtain ⟨rfl, hvalue⟩ := List.cons.inj hrest
        obtain ⟨pre, name', rhs, post, e₀, hb, hk, ht, he, hf', hnew⟩ := ih hf before sign' tail operator' hs' hvalue
        refine ⟨name :: sign :: pre, name', rhs, post, e₀, by rw [hb]; rfl, hk, ht, he, hf', fun new e' h' hr => ?_⟩
        obtain ⟨value, hvalue, hrep⟩ := hnew new e' h' hr
        refine ⟨compoundTree name sign operator value, .compound hn hs hvalue, ?_, by simp, by simp [compoundTree]⟩
        exact .compound (.refl name) rfl (.refl _) hrep.exprs
  | @joined layer operator ls rs l r hk hl hr ihl ihr =>
    intro next _
    refine Sites.append ((ihl fun heq => absurd heq (Layer.ne_of_operator hk)).mono ?_)
      (Sites.behind (Layer.plain_operator hk) ((ihr fun heq => absurd heq layer.tighter_ne).mono ?_))
    · rintro ls' ⟨l', h', hrep⟩
      exact ⟨layer.join l' operator r, .joined hk h' hr, Layer.replaces_join hrep.exprs (hrefl r)⟩
    · rintro rs' ⟨r', h', hrep⟩
      exact ⟨layer.join l operator r', .joined hk hl h', Layer.replaces_join (hrefl l) hrep.exprs⟩
  | @unary operator ts e hk h ih =>
    intro next _
    refine Sites.behind (.cons_mem hk (by decide) .nil) ((ih fun heq => absurd heq (by decide)).mono ?_)
    rintro ts' ⟨e', h', hr⟩
    exact ⟨.unary operator e', .unary hk h', .unary (.refl operator) hr.exprs, by simp, by simp⟩
  | stepBefore hk hn =>
    intro next _
    exact sites_plain (.cons_mem hk (by decide) (.cons hn rfl .nil))
  | stepAfter hk hn =>
    intro next _
    exact sites_plain (.cons hn rfl (.cons_mem hk (by decide) .nil))
  | var hn =>
    intro next _
    exact sites_plain (.cons hn rfl .nil)
  | valued hk =>
    intro next _
    exact sites_plain (.cons_mem hk (by decide) .nil)
  | oo hk =>
    intro next _
    exact sites_plain (.cons hk rfl .nil)
  | null hk =>
    intro next _
    exact sites_plain (.cons hk rfl .nil)
  | lineBreak hk =>
    intro next _
    exact sites_plain (.cons hk rfl .nil)
  | @grouping opening closing ts e ho h hc ih =>
    intro next _
    refine sites_parenthesized ho hc ((ih fun _ => follows_of_kind (by rw [hc]; rfl)).mono ?_)
    rintro ts' ⟨e', h', hr⟩
    exact ⟨.grouping e', .grouping ho h' hc, .grouping hr.exprs, by simp, by simp⟩

/-! ## Parts of statements -/

theorem sites_condition {cs : List Token} {e : Expr} (h : Condition cs e) (next : List Token) :
    Sites cs next fun cs' => ∃ e', Condition cs' e' ∧ offsets.Exprs e e' := by
  obtain ⟨ho, he, hc⟩ := h
  refine sites_parenthesized ho hc ((sites_expression he fun _ => follows_of_kind (by rw [hc]; rfl)).mono ?_)
  rintro ts' ⟨e', h', hr⟩
  exact ⟨e', .mk ho h' hc, hr.exprs⟩

theorem Blank.plain {ts : List Token} (h : Blank ts) : Plain ts := fun t ht => by rw [h t ht]; rfl

theorem Terminator.plain {stop next : List Token} (h : Terminator stop next) : Plain stop := by
  cases h with
  | line hk => exact .cons hk rfl .nil
  | before hk => exact .nil

theorem plain_names {ts names : List Token} (h : Separated Name ts names) : Plain ts := by
  induction h with
  | one hname =>
    cases hname with
    | mk hk => exact .cons hk rfl .nil
  | more hname hc _ ih =>
    cases hname with
    | mk hk => exact .cons hk rfl (.cons hc rfl ih)

theorem plain_typeWord {word : Token} {declared : DataType} (h : word.kind = typeWord declared) : Plain [word] :=
  .cons h (by cases declared <;> rfl) .nil

theorem sites_declared {declared : DataType} {ts next : List Token} {entry : Token × Option Expr}
    (h : Declared declared ts entry) (hf : Follows .assignment next) :
    Sites ts next fun ts' => ∃ entry', Declared declared ts' entry' ∧ offsets.Declares entry entry' ∧
      entry'.1 = entry.1 := by
  cases h with
  | bare hn => exact sites_plain (.cons hn rfl .nil)
  | @initialized name sign ts e kept hn hs he hi =>
    refine Sites.behind (.cons hn rfl (.cons hs rfl .nil)) ((sites_expression he fun _ => hf).mono ?_)
    rintro ts' ⟨e', h', hr⟩
    obtain rfl : kept = e := by
      cases hi with
      | computed => rfl
      | _ => exact absurd rfl (hr.computed _)
    exact ⟨(name, some e'), .initialized hn hs h' (.computed hr.computed'), .initialized (.refl name) hr.exprs, rfl⟩

theorem sites_separated {declared : DataType} {ts : List Token} {names : List (Token × Option Expr)}
    (h : Separated (Declared declared) ts names) : ∀ {next : List Token}, Follows .assignment next →
    Sites ts next fun ts' => ∃ names', Separated (Declared declared) ts' names' ∧
      List.Forall₂ offsets.Declares names names' ∧ names'.map (·.1.lexeme) = names.map (·.1.lexeme) := by
  have hrefl : ∀ entry, offsets.Declares entry entry := .refl Token.Same.refl
  induction h with
  | one hname =>
    intro next hf
    refine (sites_declared hname hf).mono ?_
    rintro ts' ⟨entry', h', hd, hn⟩
    exact ⟨[entry'], .one h', .cons hd .nil, by simp [hn]⟩
  | @more comma ts rest name names hname hc hrest ih =>
    intro next hf
    have hcomma : Follows .assignment (comma :: rest ++ next) := follows_of_kind (by rw [hc]; rfl)
    refine Sites.append ((sites_declared hname hcomma).mono ?_) (Sites.behind (.cons hc rfl .nil) ((ih hf).mono ?_))
    · rintro ts' ⟨entry', h', hd, hn⟩
      exact ⟨entry' :: names, .more h' hc hrest, .cons hd (List.forall₂_same.2 fun n _ => hrefl n), by simp [hn]⟩
    · rintro rest' ⟨names', h', hd, hn⟩
      exact ⟨name :: names', .more hname hc h', .cons (hrefl name) hd, by simp [hn]⟩

theorem sites_start {ts next : List Token} {start : Option Stmt} (h : Start ts start) (hf : Follows .assignment next) :
    Sites ts next fun ts' => ∃ start', Start ts' start' ∧ offsets.Phrases (.otherwise start) (.otherwise start') := by
  cases h with
  | none => exact sites_plain .nil
  | @mugna keyword word declared ts name hk hw hd =>
    refine Sites.behind (.cons hk rfl (plain_typeWord hw)) ((sites_declared hd hf).mono ?_)
    rintro ts' ⟨name', h', hname, -⟩
    exact ⟨_, .mugna hk hw h', .otherwise (.body (.mugna (.refl keyword) (.cons hname .nil)))⟩
  | expr he =>
    refine (sites_expression he fun _ => hf).mono ?_
    rintro ts' ⟨e', h', hr⟩
    exact ⟨_, .expr h', .otherwise (.body (.expr hr.exprs))⟩

theorem sites_optional {ts next : List Token} {e : Option Expr} (h : Optional ts e) (hf : Follows .assignment next) :
    Sites ts next fun ts' => ∃ x x', e = some x ∧ Optional ts' (some x') ∧ offsets.Exprs x x' := by
  cases h with
  | none => exact sites_plain .nil
  | some he =>
    refine (sites_expression he fun _ => hf).mono ?_
    rintro ts' ⟨e', h', hr⟩
    exact ⟨_, e', rfl, .some h', hr.exprs⟩

/-! ## Counted loops -/

section Counted

variable {body body' : Stmt} {start start' : Option Stmt} {condition condition' increment increment' : Option Expr}

theorem phrases_round_body (h : offsets.Phrases (.statement body) (.statement body')) (increment : Option Expr) :
    offsets.Phrases (.statement (round body increment)) (.statement (round body' increment)) := by
  cases increment with
  | none => exact h
  | some e => exact .pundok (.item h (.item (.expr (.refl Token.Same.refl e)) .noItem))

theorem phrases_round_step {e e' : Expr} (h : offsets.Exprs e e') (body : Stmt) :
    offsets.Phrases (.statement (round body (some e))) (.statement (round body (some e'))) :=
  .pundok (.item (.statement_refl Token.Same.refl body) (.item (.expr h) .noItem))

theorem phrases_counted (keyword : Token) (hs : offsets.Phrases (.otherwise start) (.otherwise start'))
    (hc : offsets.Exprs (condition.getD (.literal (.tinuod true))) (condition'.getD (.literal (.tinuod true))))
    (hr : offsets.Phrases (.statement (round body increment)) (.statement (round body' increment'))) :
    offsets.Phrases (.statement (counted keyword start condition increment body))
      (.statement (counted keyword start' condition' increment' body')) := by
  have hloop := Phrases.mintras (C := offsets) (Token.Same.refl keyword) hc (.body hr)
  cases hs with
  | noOtherwise => exact hloop
  | otherwise hfirst =>
    cases hfirst with
    | body hfirst => exact .pundok (.item hfirst (.item hloop .noItem))

end Counted

/-! ## What follows a phrase -/

theorem SameLead.terminator {stop next next' : List Token} (h : SameLead next next') (ht : Terminator stop next) :
    Terminator stop next' := by
  cases ht with
  | line hk => exact .line hk
  | before hk =>
    obtain ⟨pre, t, rest, rest', -, hnext, rfl⟩ := h
    cases pre with
    | nil =>
      obtain ⟨rfl, -⟩ := List.cons.inj hnext
      exact .before hk
    | cons first pre =>
      obtain ⟨rfl, -⟩ := List.cons.inj hnext
      exact .before hk

theorem SameLead.afterNewlines {ts ts' : List Token} (h : SameLead ts ts') :
    nextKind (TokenReader.afterNewlines ts') = nextKind (TokenReader.afterNewlines ts) := by
  obtain ⟨pre, t, rest, rest', hk, rfl, rfl⟩ := h
  induction pre with
  | nil =>
    have hne : ∀ rest, nextKind (t :: rest) ≠ .newline := fun rest => hk
    rw [List.nil_append, List.nil_append, afterNewlines_of_ne (hne _), afterNewlines_of_ne (hne _)]
    rfl
  | cons first pre ih =>
    by_cases hf : first.kind = .newline
    · rw [List.cons_append, List.cons_append, afterNewlines_newline hf, afterNewlines_newline hf]
      exact ih
    · have hne : ∀ rest, nextKind (first :: rest) ≠ .newline := fun rest => hf
      rw [List.cons_append, List.cons_append, afterNewlines_of_ne (hne _), afterNewlines_of_ne (hne _)]
      rfl

theorem SameLead.leads {ts ts' : List Token} (h : SameLead ts ts') {kind : Kind} (hk : kind ≠ .newline)
    (he : kind ≠ .eof) : Leads kind ts' ↔ Leads kind ts := by
  rw [leads_iff hk he, leads_iff hk he, h.afterNewlines]

/-- Of what follows a phrase only the first token matters that is no newline. -/
theorem Derives.of_lead {inLoop : Bool} {p : Phrase} {ts next : List Token} (h : Derives inLoop p ts next) :
    ∀ {next' : List Token}, SameLead next next' → Derives inLoop p ts next' := by
  induction h with
  | mugna hk hw hn hd ht => exact fun hl => .mugna hk hw hn hd (hl.terminator ht)
  | ipakita hk hc he ht => exact fun hl => .ipakita hk hc he (hl.terminator ht)
  | dawat hk hc hn ht => exact fun hl => .dawat hk hc hn (hl.terminator ht)
  | hunong hk ht => exact fun hl => .hunong hk (hl.terminator ht)
  | padayon hk ht => exact fun hl => .padayon hk (hl.terminator ht)
  | expr he ht => exact fun hl => .expr he (hl.terminator ht)
  | pundok hk ho _ hc ih => exact fun hl => .pundok hk ho (ih (hl.append [_])) hc
  | kung hk hc _ _ _ ihb iha iho =>
    exact fun hl => .kung hk hc (ihb (hl.append _)) (iha (hl.append _)) (iho hl)
  | mintras hk hc _ ih => exact fun hl => .mintras hk hc (ih hl)
  | buhata hk _ hb hw hc ht ih => exact fun hl => .buhata hk (ih (hl.append _)) hb hw hc (hl.terminator ht)
  | alangSa hk ho hs hc hx hc' hi hp _ ih => exact fun hl => .alangSa hk ho hs hc hx hc' hi hp (ih hl)
  | body hb _ ih => exact fun hl => .body hb (ih hl)
  | noAlternative hn => exact fun hl => .noAlternative fun h => hn ((hl.leads (by decide) (by decide)).1 h)
  | alternative hb hw hc _ _ ihb iha => exact fun hl => .alternative hb hw hc (ihb (hl.append _)) (iha hl)
  | noOtherwise hn => exact fun hl => .noOtherwise fun h => hn ((hl.leads (by decide) (by decide)).1 h)
  | otherwise hb hw _ ih => exact fun hl => .otherwise hb hw (ih hl)
  | noItem => exact fun _ => .noItem
  | newline hk _ ih => exact fun hl => .newline hk (ih hl)
  | item _ _ ihs ihm => exact fun hl => .item (ihs (hl.append _)) (ihm hl)

/-! ## Statements -/

section Forms

variable {C : Correspondence} {p' : Phrase}

theorem phrases_statement {s : Stmt} (h : C.Phrases (.statement s) p') : ∃ s', p' = .statement s' := by
  cases h <;> exact ⟨_, rfl⟩

theorem phrases_body {s : Stmt} (h : C.Phrases (.body s) p') :
    ∃ s', p' = .body s' ∧ C.Phrases (.statement s) (.statement s') := by
  cases h with
  | body h => exact ⟨_, rfl, h⟩

theorem phrases_alternatives {branches : List (Expr × Stmt)} (h : C.Phrases (.alternatives branches) p') :
    ∃ branches', p' = .alternatives branches' := by
  cases h <;> exact ⟨_, rfl⟩

theorem phrases_otherwise {last : Option Stmt} (h : C.Phrases (.otherwise last) p') :
    ∃ last', p' = .otherwise last' := by
  cases h <;> exact ⟨_, rfl⟩

theorem phrases_items {statements : List Stmt} (h : C.Phrases (.items statements) p') :
    ∃ statements', p' = .items statements' := by
  cases h <;> exact ⟨_, rfl⟩

end Forms

/-- By induction on the phrase. A part before the site is followed by other tokens
than before, but they start with the same ones. -/
theorem sites_derives {inLoop : Bool} {p : Phrase} {ts next : List Token} (h : Derives inLoop p ts next) :
    Sites ts next fun ts' => ∃ p', Derives inLoop p' ts' next ∧ offsets.Phrases p p' := by
  have hsame : ∀ t, offsets.tokens t t := Token.Same.refl
  induction h with
  | @mugna inLoop keyword word declared ts stop next names hk hw hn hd ht =>
    refine Sites.before ht.plain
      (Sites.behind (.cons hk rfl (plain_typeWord hw)) ((sites_separated hn ht.follows).mono ?_))
    rintro ts' ⟨names', h', hdeclares, hnames⟩
    exact ⟨_, .mugna hk hw h' (hnames ▸ hd) ht, .mugna (hsame keyword) hdeclares⟩
  | @ipakita inLoop keyword colon ts stop next e hk hc he ht =>
    refine Sites.before ht.plain
      (Sites.behind (.cons hk rfl (.cons hc rfl .nil)) ((sites_expression he fun _ => ht.follows).mono ?_))
    rintro ts' ⟨e', h', hr⟩
    exact ⟨_, .ipakita hk hc h' ht, .ipakita (hsame keyword) hr.exprs⟩
  | @dawat inLoop keyword colon ts stop next names hk hc hn ht =>
    exact sites_plain (.cons hk rfl (.cons hc rfl ((plain_names hn).append ht.plain)))
  | @hunong keyword stop next hk ht =>
    exact sites_plain (.cons hk rfl ht.plain)
  | @padayon keyword stop next hk ht =>
    exact sites_plain (.cons hk rfl ht.plain)
  | @expr inLoop ts stop next e he ht =>
    refine Sites.before ht.plain ((sites_expression he fun _ => ht.follows).mono ?_)
    rintro ts' ⟨e', h', hr⟩
    exact ⟨_, .expr h' ht, .expr hr.exprs⟩
  | @pundok inLoop keyword opening closing ts next body hk ho h hc ih =>
    refine Sites.before (.cons hc rfl .nil) (Sites.behind (.cons hk rfl (.cons ho rfl .nil)) (ih.mono ?_))
    rintro ts' ⟨p', h', hp⟩
    obtain ⟨body', rfl⟩ := phrases_items hp
    exact ⟨_, .pundok hk ho h' hc, .pundok hp⟩
  | @kung inLoop keyword cs bs as os next condition body branches last hk hc hb ha ho ihb iha iho =>
    have ihb' : Sites bs (as ++ (os ++ next)) fun bs' => ∃ p', Derives inLoop p' bs' (as ++ os ++ next) ∧
        offsets.Phrases (.body body) p' := by
      rw [← List.append_assoc]
      exact ihb
    refine Sites.append (Sites.append (Sites.append
      (Sites.behind (.cons hk rfl .nil) ((sites_condition hc _).mono ?_)) (ihb'.mono ?_)) (iha.lead.mono ?_))
      (iho.lead.mono ?_)
    · rintro cs' ⟨e', h', he⟩
      exact ⟨_, .kung hk h' hb ha ho, .kung (hsame keyword) he (.body (.statement_refl hsame body))
        (.alternatives_refl hsame branches) (.otherwise_refl hsame last)⟩
    · rintro bs' ⟨p', h', hp⟩
      obtain ⟨body', rfl, -⟩ := phrases_body hp
      exact ⟨_, .kung hk hc h' ha ho, .kung (hsame keyword) (.refl hsame condition) hp
        (.alternatives_refl hsame branches) (.otherwise_refl hsame last)⟩
    · rintro as' ⟨⟨p', h', hp⟩, hl⟩
      obtain ⟨branches', rfl⟩ := phrases_alternatives hp
      have hb' : Derives inLoop (.body body) bs (as' ++ os ++ next) := hb.of_lead (by simpa using hl)
      exact ⟨_, .kung hk hc hb' h' ho, .kung (hsame keyword) (.refl hsame condition)
        (.body (.statement_refl hsame body)) hp (.otherwise_refl hsame last)⟩
    · rintro os' ⟨⟨p', h', hp⟩, hl⟩
      obtain ⟨last', rfl⟩ := phrases_otherwise hp
      have hb' : Derives inLoop (.body body) bs (as ++ os' ++ next) := hb.of_lead (by simpa using hl.append as)
      exact ⟨_, .kung hk hc hb' (ha.of_lead hl) h', .kung (hsame keyword) (.refl hsame condition)
        (.body (.statement_refl hsame body)) (.alternatives_refl hsame branches) hp⟩
  | @mintras inLoop keyword cs bs next condition body hk hc hb ih =>
    refine Sites.append (Sites.behind (.cons hk rfl .nil) ((sites_condition hc _).mono ?_)) (ih.mono ?_)
    · rintro cs' ⟨e', h', he⟩
      exact ⟨_, .mintras hk h' hb, .mintras (hsame keyword) he (.body (.statement_refl hsame body))⟩
    · rintro bs' ⟨p', h', hp⟩
      obtain ⟨body', rfl, -⟩ := phrases_body hp
      exact ⟨_, .mintras hk hc h', .mintras (hsame keyword) (.refl hsame condition) hp⟩
  | @buhata inLoop keyword word bs blank cs stop next condition body hk hb hblank hw hc ht ih =>
    have ih' : Sites bs (blank ++ (word :: cs ++ (stop ++ next))) fun bs' => ∃ p',
        Derives true p' bs' (blank ++ word :: cs ++ stop ++ next) ∧ offsets.Phrases (.body body) p' := by
      rw [← List.append_assoc, ← List.append_assoc]
      exact ih
    refine Sites.before ht.plain (Sites.append
      (Sites.before hblank.plain (Sites.behind (.cons hk rfl .nil) (ih'.mono ?_)))
      (Sites.behind (.cons hw rfl .nil) ((sites_condition hc _).lead.mono ?_)))
    · rintro bs' ⟨p', h', hp⟩
      obtain ⟨body', rfl, -⟩ := phrases_body hp
      exact ⟨_, .buhata hk h' hblank hw hc ht, .buhata (hsame keyword) hp (.refl hsame condition)⟩
    · rintro cs' ⟨⟨e', h', he⟩, hl⟩
      have hb' : Derives true (.body body) bs (blank ++ word :: cs' ++ stop ++ next) :=
        hb.of_lead (by simpa using hl.append (blank ++ [word]))
      exact ⟨_, .buhata hk hb' hblank hw h' ht, .buhata (hsame keyword) (.body (.statement_refl hsame body)) he⟩
  | @alangSa inLoop keyword opening comma comma' closing is cs ns bs next start condition increment body hk ho hs hc hx
      hc' hi hp hb ih =>
    have hf : ∀ {t : Token} {k : Kind} (rest : List Token), t.kind = k → followRank k = 0 →
        Follows .assignment (t :: rest) := fun rest hk hr => follows_of_kind (by rw [hk, hr])
    refine Sites.append (Sites.append (Sites.append
      (Sites.behind (.cons hk rfl (.cons ho rfl .nil)) ((sites_start hs (hf _ hc rfl)).mono ?_))
      (Sites.behind (.cons hc rfl .nil) ((sites_optional hx (hf _ hc' rfl)).mono ?_)))
      (Sites.behind (.cons hc' rfl .nil) ((sites_optional hi (hf _ hp rfl)).mono ?_)))
      (Sites.behind (.cons hp rfl .nil) (ih.mono ?_))
    · rintro is' ⟨start', h', hstart⟩
      exact ⟨_, .alangSa hk ho h' hc hx hc' hi hp hb, phrases_counted keyword hstart (.refl hsame _)
        (.statement_refl hsame _)⟩
    · rintro cs' ⟨e, e', rfl, h', he⟩
      exact ⟨_, .alangSa hk ho hs hc h' hc' hi hp hb, phrases_counted keyword (.otherwise_refl hsame start) he
        (.statement_refl hsame _)⟩
    · rintro ns' ⟨e, e', rfl, h', he⟩
      exact ⟨_, .alangSa hk ho hs hc hx hc' h' hp hb, phrases_counted keyword (.otherwise_refl hsame start)
        (.refl hsame _) (phrases_round_step he body)⟩
    · rintro bs' ⟨p', h', hbody⟩
      obtain ⟨body', rfl, hstatement⟩ := phrases_body hbody
      exact ⟨_, .alangSa hk ho hs hc hx hc' hi hp h', phrases_counted keyword (.otherwise_refl hsame start)
        (.refl hsame _) (phrases_round_body hstatement increment)⟩
  | @body inLoop blank ts next s hblank h ih =>
    refine Sites.behind hblank.plain (ih.mono ?_)
    rintro ts' ⟨p', h', hp⟩
    obtain ⟨s', rfl⟩ := phrases_statement hp
    exact ⟨_, .body hblank h', .body hp⟩
  | noAlternative hn => exact sites_plain .nil
  | @alternative inLoop word blank cs bs as next condition body branches hblank hw hc hb ha ihb iha =>
    refine Sites.append (Sites.append
      (Sites.behind hblank.plain (Sites.behind (.cons hw rfl .nil) ((sites_condition hc _).mono ?_)))
      (ihb.mono ?_)) (iha.lead.mono ?_)
    · rintro cs' ⟨e', h', he⟩
      exact ⟨_, .alternative hblank hw h' hb ha, .alternative he (.body (.statement_refl hsame body))
        (.alternatives_refl hsame branches)⟩
    · rintro bs' ⟨p', h', hp⟩
      obtain ⟨body', rfl, -⟩ := phrases_body hp
      exact ⟨_, .alternative hblank hw hc h' ha, .alternative (.refl hsame condition) hp
        (.alternatives_refl hsame branches)⟩
    · rintro as' ⟨⟨p', h', hp⟩, hl⟩
      obtain ⟨branches', rfl⟩ := phrases_alternatives hp
      exact ⟨_, .alternative hblank hw hc (hb.of_lead hl) h', .alternative (.refl hsame condition)
        (.body (.statement_refl hsame body)) hp⟩
  | noOtherwise hn => exact sites_plain .nil
  | @otherwise inLoop word blank bs next body hblank hw hb ih =>
    refine Sites.behind hblank.plain (Sites.behind (.cons hw rfl .nil) (ih.mono ?_))
    rintro bs' ⟨p', h', hp⟩
    obtain ⟨body', rfl, -⟩ := phrases_body hp
    exact ⟨_, .otherwise hblank hw h', .otherwise hp⟩
  | noItem => exact sites_plain .nil
  | @newline inLoop t ts next statements hk h ih =>
    refine Sites.behind (.cons hk rfl .nil) (ih.mono ?_)
    rintro ts' ⟨p', h', hp⟩
    obtain ⟨statements', rfl⟩ := phrases_items hp
    exact ⟨_, .newline hk h', hp⟩
  | @item inLoop ts more next s statements hs hm ihs ihm =>
    refine Sites.append (ihs.mono ?_) (ihm.lead.mono ?_)
    · rintro ts' ⟨p', h', hp⟩
      obtain ⟨s', rfl⟩ := phrases_statement hp
      exact ⟨_, .item h' hm, .item hp (.items_refl hsame _)⟩
    · rintro more' ⟨⟨p', h', hp⟩, hl⟩
      obtain ⟨statements', rfl⟩ := phrases_items hp
      exact ⟨_, .item (hs.of_lead hl) h', .item (.statement_refl hsame s) hp⟩

/-! ## Programs -/

theorem sites_program {ts : List Token} {statements : List Stmt} (h : IsProgram ts statements) :
    Sites ts [] fun ts' => ∃ statements', IsProgram ts' statements' ∧
      offsets.Phrases (.items statements) (.items statements') := by
  obtain ⟨hbefore, hstart, hd, hstop, hafter, hlast⟩ := h
  rename_i before after ts start stop last
  have hsites : Sites ts (stop :: after ++ ([last] ++ [])) fun ts' => ∃ p',
      Derives false p' ts' (stop :: after ++ [last]) ∧ offsets.Phrases (.items statements) p' := sites_derives hd
  refine Sites.before (.cons hlast rfl .nil) (Sites.before (.cons hstop rfl hafter.plain)
    (Sites.behind hbefore.plain (Sites.behind (.cons hstart rfl .nil) (hsites.mono ?_))))
  rintro ts' ⟨p', h', hp⟩
  obtain ⟨statements', rfl⟩ := phrases_items hp
  exact ⟨statements', .mk hbefore hstart h' hstop hafter hlast, hp⟩

end BisayaPlus.Grammar
