import BisayaPlus.Proofs.ProgramGrammar
import BisayaPlus.Proofs.ReadBack
import BisayaPlus.Proofs.TokenListings
/-!
# Tree listings

Statements are listed one on a line, however deep they are nested. A tree shows
texts in quotes and all other tokens as they are written, and of those no
operator, name or character has a line feed in it.
-/

set_option autoImplicit false

namespace BisayaPlus

open Text Scan

/-! ## Tokens in a tree -/

theorem lineFeed_not_mem_join {parts : List Text} (h : ∀ part ∈ parts, lineFeed ∉ part) :
    lineFeed ∉ join [byte ' '] parts := by
  induction parts with
  | nil => exact List.not_mem_nil
  | cons part more ih =>
    obtain ⟨hpart, hmore⟩ := List.forall_mem_cons.1 h
    cases more with
    | nil => exact hpart
    | cons next rest =>
      have hspace : lineFeed ≠ byte ' ' := by decide
      rw [join]
      simp only [List.mem_append, List.mem_singleton, not_or]
      exact ⟨⟨hpart, hspace⟩, ih hmore⟩

theorem lineFeed_not_mem_parenthesised {parts : List Text} (h : ∀ part ∈ parts, lineFeed ∉ part) :
    lineFeed ∉ parenthesised parts := by
  have hopening : lineFeed ≠ byte '(' := by decide
  have hclosing : lineFeed ≠ byte ')' := by decide
  simp [parenthesised, hopening, hclosing, lineFeed_not_mem_join h]

/-- A token that a tree can show on one line, as an operator or a name by its
lexeme and as a literal by its value. -/
structure Token.FitsLine (t : Token) : Prop where
  lexeme : t.kind ∉ [Kind.newline, .string] → lineFeed ∉ t.lexeme
  literal : ∀ v ∈ t.literal, lineFeed ∉ v.shown

theorem lineFeed_not_mem_shown {kind : Kind} {t : Text} {v : Value} (h : Denotes kind t (some v)) :
    lineFeed ∉ v.shown := by
  cases h with
  | string => exact lineFeed_not_mem_quote _
  | escape => exact lineFeed_not_mem_quote _
  | numero => exact lineFeed_not_mem_ofInt _
  | tipik => exact Binary64.lineFeed_not_mem_write _ _
  | @char c hc =>
    have hquote : lineFeed ≠ byte '\'' := by decide
    have hbody : lineFeed ∉ ofChar c := lineFeed_not_mem_ofChar fun h => hc (by simp [h])
    have hshown : (Value.letra (Int32.ofInt c.toNat)).shown = byte '\'' :: ofChar c ++ [byte '\''] := by
      rw [← Value.display_letra]
      rfl
    rw [hshown]
    simp [hquote, hbody]

/-- Every token of a source fits. -/
theorem fitsLine_of_mem {source : Text} {t : Token} (ht : t ∈ (scan source).tokens) : t.FitsLine := by
  rcases denotes_of_mem ht with ⟨-, hlexeme, hliteral⟩ | hdenotes
  · exact ⟨fun _ => hlexeme ▸ List.not_mem_nil, fun v hv => by rw [hliteral] at hv; cases hv⟩
  · refine ⟨hdenotes.lineFeed_not_mem, fun v hv => ?_⟩
    rw [hv] at hdenotes
    exact lineFeed_not_mem_shown hdenotes

namespace Grammar

variable {ts : List Token} {e : Expr}

theorem operator_kinds (layer : Layer) : ∀ kind ∈ layer.operators, kind ∉ [Kind.newline, .string] := by
  cases layer <;> decide

theorem render_join (layer : Layer) (l r : Expr) (operator : Token) :
    (layer.join l operator r).render = parenthesised [operator.lexeme, l.render, r.render] := by
  cases layer <;> rfl

theorem lineFeed_not_mem_lexeme {t : Token} (ht : t.FitsLine) {kinds : List Kind} (hkind : t.kind ∈ kinds)
    (hkinds : ∀ kind ∈ kinds, kind ∉ [Kind.newline, .string]) : lineFeed ∉ t.lexeme :=
  ht.lexeme (hkinds _ hkind)

theorem lineFeed_not_mem_name {t : Token} (ht : t.FitsLine) (hkind : t.kind = .identifier) : lineFeed ∉ t.lexeme :=
  ht.lexeme (by simp [hkind])

theorem lineFeed_not_mem_step {t : Token} (ht : t.FitsLine) (hkind : t.kind ∈ [Kind.plusPlus, .minusMinus]) :
    lineFeed ∉ t.lexeme :=
  lineFeed_not_mem_lexeme ht hkind (by decide)

/-- An expression is shown on one line. By induction on its derivation: each
lexeme that is shown is that of an operator or of a name. -/
theorem Expression.lineFeed_not_mem_render {layer : Layer} (h : Expression layer ts e) (hts : ∀ t ∈ ts, t.FitsLine) :
    lineFeed ∉ e.render := by
  induction h with
  | tighter _ _ ih => exact ih hts
  | assign hname _ _ ih =>
    have hequal : lineFeed ∉ ofString "=" := by decide
    have hvalue := ih fun t ht => hts t (by simp [ht])
    exact lineFeed_not_mem_parenthesised (by simp [hequal, lineFeed_not_mem_name (hts _ (by simp)) hname, hvalue])
  | @compound name sign operator ts e hname hsign _ ih =>
    have hequal : lineFeed ∉ ofString "=" := by decide
    have hvalue := ih fun t ht => hts t (by simp [ht])
    have hlexeme := lineFeed_not_mem_name (hts name (by simp)) hname
    -- the operator is written with the first byte of the sign
    have hkind : sign.kind ∈ compounds.map Prod.fst := List.mem_map_of_mem (f := Prod.fst) hsign
    have hsignLexeme : lineFeed ∉ sign.lexeme := lineFeed_not_mem_lexeme (hts sign (by simp)) hkind (by decide)
    have hoperator : lineFeed ∉ sign.lexeme.take 1 := fun hmem => hsignLexeme (List.mem_of_mem_take hmem)
    have hcomputed :
        lineFeed ∉ (Expr.binary (.var name) ⟨operator, sign.lexeme.take 1, none, sign.line, none⟩ e).render :=
      lineFeed_not_mem_parenthesised (by simp [hoperator, hlexeme, hvalue, Expr.render])
    exact lineFeed_not_mem_parenthesised (by simp [hequal, hlexeme, hcomputed])
  | @joined layer operator ls rs l r hoperator _ _ ihl ihr =>
    have hl := ihl fun t ht => hts t (by simp [ht])
    have hr := ihr fun t ht => hts t (by simp [ht])
    have hlexeme := lineFeed_not_mem_lexeme (hts operator (by simp)) hoperator (operator_kinds layer)
    rw [render_join]
    exact lineFeed_not_mem_parenthesised (by simp [hlexeme, hl, hr])
  | unary hoperator _ ih =>
    have hright := ih fun t ht => hts t (by simp [ht])
    have hlexeme := lineFeed_not_mem_lexeme (hts _ (by simp)) hoperator (by decide)
    exact lineFeed_not_mem_parenthesised (by simp [hlexeme, hright])
  | stepBefore hoperator hname | stepAfter hoperator hname =>
    have hlexeme := lineFeed_not_mem_step (hts _ (by simp)) hoperator
    have hname' := lineFeed_not_mem_name (hts _ (by simp)) hname
    exact lineFeed_not_mem_parenthesised (by simp [hlexeme, hname'])
  | var hname => exact lineFeed_not_mem_name (hts _ (by simp)) hname
  | @valued t hkind =>
    cases hliteral : t.literal with
    | none => decide
    | some v => exact (hts t (by simp)).literal v hliteral
  | oo => decide
  | null => decide
  | lineBreak => exact lineFeed_not_mem_quote _
  | grouping _ _ _ ih => exact ih fun t ht => hts t (by simp [ht])

theorem Initial.lineFeed_not_mem_render {declared : DataType} {kept : Expr} (h : Initial declared e kept)
    (he : lineFeed ∉ e.render) : lineFeed ∉ kept.render := by
  cases h with
  | @spelled b => cases b <;> decide
  | null | numero | tipik | whole | letra | tinuod | computed => exact he

theorem Declared.lineFeed_not_mem_render {declared : DataType} {entry : Token × Option Expr}
    (h : Declared declared ts entry) (hts : ∀ t ∈ ts, t.FitsLine) : lineFeed ∉ renderDeclared entry := by
  cases h with
  | bare hname => exact lineFeed_not_mem_name (hts _ (by simp)) hname
  | initialized hname _ he hinitial =>
    have hkept := hinitial.lineFeed_not_mem_render (he.lineFeed_not_mem_render fun t ht => hts t (by simp [ht]))
    exact lineFeed_not_mem_parenthesised (by simp [lineFeed_not_mem_name (hts _ (by simp)) hname, hkept])

/-- What holds of each item holds of all items. -/
theorem Separated.forall_mem {α : Type} {item : List Token → α → Prop} {T : Token → Prop} {P : α → Prop} {as : List α}
    (h : Separated item ts as) (hitem : ∀ {ts a}, item ts a → (∀ t ∈ ts, T t) → P a) (hts : ∀ t ∈ ts, T t) :
    ∀ a ∈ as, P a := by
  induction h with
  | one h => simpa using hitem h hts
  | more h _ _ ih =>
    exact List.forall_mem_cons.2 ⟨hitem h fun t ht => hts t (by simp [ht]), ih fun t ht => hts t (by simp [ht])⟩

theorem Condition.lineFeed_not_mem_render (h : Condition ts e) (hts : ∀ t ∈ ts, t.FitsLine) : lineFeed ∉ e.render := by
  cases h with
  | mk _ he _ => exact he.lineFeed_not_mem_render fun t ht => hts t (by simp [ht])

theorem Start.lineFeed_not_mem_render {start : Option Stmt} (h : Start ts start) (hts : ∀ t ∈ ts, t.FitsLine) :
    ∀ s ∈ start, lineFeed ∉ s.render := by
  cases h with
  | none => simp
  | @mugna keyword word declared ts name _ _ hname =>
    have hdeclared := hname.lineFeed_not_mem_render fun t ht => hts t (by simp [ht])
    have hword : lineFeed ∉ declared.name := by cases declared <;> decide
    have hstart : lineFeed ∉ ofString "MUGNA" := by decide
    intro s hs
    obtain rfl := Option.some.inj hs
    unfold Stmt.render
    exact lineFeed_not_mem_parenthesised (by simp [hstart, hword, hdeclared])
  | expr he =>
    intro s hs
    obtain rfl := Option.some.inj hs
    unfold Stmt.render
    exact he.lineFeed_not_mem_render hts

theorem Optional.lineFeed_not_mem_render {found : Option Expr} (h : Optional ts found) (hts : ∀ t ∈ ts, t.FitsLine) :
    ∀ e ∈ found, lineFeed ∉ e.render := by
  cases h with
  | none => simp
  | some he =>
    intro e' he'
    obtain rfl := Option.some.inj he'
    exact he.lineFeed_not_mem_render hts

/-- The texts that a phrase is shown as. -/
def Phrase.rendered : Phrase → List Text
  | .statement s | .body s => [s.render]
  | .alternatives branches => renderAlternatives branches
  | .otherwise last => renderOtherwise last
  | .items statements => statements.map Stmt.render

theorem renderAll_eq_map (statements : List Stmt) : renderAll statements = statements.map Stmt.render := by
  induction statements with
  | nil => rw [renderAll, List.map_nil]
  | cons s more ih => rw [renderAll, List.map_cons, ih]

/-- A word and other texts between parentheses. -/
theorem lineFeed_not_mem_clause {word : Text} {parts : List Text} (hword : lineFeed ∉ word)
    (h : ∀ part ∈ parts, lineFeed ∉ part) : lineFeed ∉ parenthesised (word :: parts) :=
  lineFeed_not_mem_parenthesised (List.forall_mem_cons.2 ⟨hword, h⟩)

theorem lineFeed_not_mem_pundok {body : List Stmt} (h : ∀ s ∈ body, lineFeed ∉ s.render) :
    lineFeed ∉ (Stmt.pundok body).render := by
  rw [Stmt.render, renderAll_eq_map]
  exact lineFeed_not_mem_clause (by decide) (List.forall_mem_map.2 h)

theorem lineFeed_not_mem_mintras (keyword : Token) {condition : Expr} {body : Stmt} (hc : lineFeed ∉ condition.render)
    (hb : lineFeed ∉ body.render) : lineFeed ∉ (Stmt.mintras keyword condition body).render := by
  rw [Stmt.render]
  exact lineFeed_not_mem_clause (by decide) (by simp [hc, hb])

/-- The tree of a counted loop is shown on one line if its parts are. -/
theorem lineFeed_not_mem_counted (keyword : Token) {start : Option Stmt} {condition increment : Option Expr}
    {body : Stmt} (hs : ∀ s ∈ start, lineFeed ∉ s.render) (hc : ∀ e ∈ condition, lineFeed ∉ e.render)
    (hi : ∀ e ∈ increment, lineFeed ∉ e.render) (hb : lineFeed ∉ body.render) :
    lineFeed ∉ (counted keyword start condition increment body).render := by
  have hround : lineFeed ∉ (round body increment).render := by
    cases increment with
    | none => exact hb
    | some e =>
      have he : lineFeed ∉ (Stmt.expr e).render := by
        rw [Stmt.render]
        exact hi e rfl
      exact lineFeed_not_mem_pundok (by simp [hb, he])
  have hcondition : lineFeed ∉ (condition.getD (.literal (.tinuod true))).render := by
    cases condition with
    | none => decide
    | some e => exact hc e rfl
  have hloop := lineFeed_not_mem_mintras keyword hcondition hround
  cases start with
  | none => exact hloop
  | some first => exact lineFeed_not_mem_pundok (by simpa using ⟨hs first rfl, hloop⟩)

/-- Every statement is shown on one line, by induction on its derivation. -/
theorem Derives.lineFeed_not_mem_rendered {inLoop : Bool} {phrase : Phrase} {next : List Token}
    (h : Derives inLoop phrase ts next) (hts : ∀ t ∈ ts, t.FitsLine) : ∀ text ∈ phrase.rendered, lineFeed ∉ text := by
  induction h with
  | @mugna _ _ _ declared _ _ _ names _ _ hnames _ _ =>
    have hdeclared := hnames.forall_mem (P := fun entry => lineFeed ∉ renderDeclared entry)
      Declared.lineFeed_not_mem_render fun t ht => hts t (by simp [ht])
    have hword : lineFeed ∉ declared.name := by cases declared <;> decide
    simp only [Phrase.rendered, List.forall_mem_singleton, Stmt.render]
    exact lineFeed_not_mem_clause (by decide) (List.forall_mem_cons.2 ⟨hword, List.forall_mem_map.2 hdeclared⟩)
  | ipakita _ _ he _ =>
    have hshown := he.lineFeed_not_mem_render fun t ht => hts t (by simp [ht])
    simp only [Phrase.rendered, List.forall_mem_singleton, Stmt.render]
    exact lineFeed_not_mem_clause (by decide) (by simpa using hshown)
  | dawat _ _ hnames _ =>
    have hshown := hnames.forall_mem (P := fun name => lineFeed ∉ name.lexeme) (T := Token.FitsLine)
      (fun hname hts => by cases hname with | mk hk => exact lineFeed_not_mem_name (hts _ (by simp)) hk)
      fun t ht => hts t (by simp [ht])
    simp only [Phrase.rendered, List.forall_mem_singleton, Stmt.render]
    exact lineFeed_not_mem_clause (by decide) (List.forall_mem_map.2 hshown)
  | hunong | padayon =>
    simp only [Phrase.rendered, List.forall_mem_singleton, Stmt.render]
    decide
  | expr he _ =>
    simp only [Phrase.rendered, List.forall_mem_singleton, Stmt.render]
    exact he.lineFeed_not_mem_render fun t ht => hts t (by simp [ht])
  | pundok _ _ _ _ ih =>
    have hbody := ih fun t ht => hts t (by simp [ht])
    simp only [Phrase.rendered, List.forall_mem_singleton]
    exact lineFeed_not_mem_pundok fun s hs => hbody _ (List.mem_map_of_mem hs)
  | kung _ hc _ _ _ ihb iha iho =>
    have hcondition := hc.lineFeed_not_mem_render fun t ht => hts t (by simp [ht])
    have hbody := ihb fun t ht => hts t (by simp [ht])
    have halternatives := iha fun t ht => hts t (by simp [ht])
    have hotherwise := iho fun t ht => hts t (by simp [ht])
    simp only [Phrase.rendered, List.forall_mem_singleton, Stmt.render] at hbody halternatives hotherwise ⊢
    refine lineFeed_not_mem_clause (by decide) ?_
    simp only [List.forall_mem_cons, List.forall_mem_append]
    exact ⟨hcondition, hbody, halternatives, hotherwise⟩
  | mintras _ hc _ ihb =>
    have hcondition := hc.lineFeed_not_mem_render fun t ht => hts t (by simp [ht])
    have hbody := ihb fun t ht => hts t (by simp [ht])
    simp only [Phrase.rendered, List.forall_mem_singleton] at hbody ⊢
    exact lineFeed_not_mem_mintras _ hcondition hbody
  | buhata _ _ _ _ hc _ ihb =>
    have hcondition := hc.lineFeed_not_mem_render fun t ht => hts t (by simp [ht])
    have hbody := ihb fun t ht => hts t (by simp [ht])
    simp only [Phrase.rendered, List.forall_mem_singleton, Stmt.render] at hbody ⊢
    exact lineFeed_not_mem_clause (by decide) (by simp [hcondition, hbody])
  | alangSa _ _ hs _ hc _ hi _ _ ihb =>
    have hstart := hs.lineFeed_not_mem_render fun t ht => hts t (by simp [ht])
    have hcondition := hc.lineFeed_not_mem_render fun t ht => hts t (by simp [ht])
    have hincrement := hi.lineFeed_not_mem_render fun t ht => hts t (by simp [ht])
    have hbody := ihb fun t ht => hts t (by simp [ht])
    simp only [Phrase.rendered, List.forall_mem_singleton] at hbody ⊢
    exact lineFeed_not_mem_counted _ hstart hcondition hincrement hbody
  | body _ _ ih => exact ih fun t ht => hts t (by simp [ht])
  | noAlternative | noOtherwise | noItem => simp [Phrase.rendered, renderAlternatives, renderOtherwise]
  | alternative _ _ hc _ _ ihb iha =>
    have hcondition := hc.lineFeed_not_mem_render fun t ht => hts t (by simp [ht])
    have hbody := ihb fun t ht => hts t (by simp [ht])
    have halternatives := iha fun t ht => hts t (by simp [ht])
    simp only [Phrase.rendered, List.forall_mem_singleton, renderAlternatives, List.forall_mem_cons]
      at hbody halternatives ⊢
    exact ⟨lineFeed_not_mem_clause (by decide) (by simp [hcondition, hbody]), halternatives⟩
  | otherwise _ _ _ ih =>
    have hbody := ih fun t ht => hts t (by simp [ht])
    simp only [Phrase.rendered, List.forall_mem_singleton, renderOtherwise] at hbody ⊢
    exact lineFeed_not_mem_clause (by decide) (by simpa using hbody)
  | newline _ _ ih => exact ih fun t ht => hts t (by simp [ht])
  | item _ _ ihs ihm =>
    have hstatement := ihs fun t ht => hts t (by simp [ht])
    have hmore := ihm fun t ht => hts t (by simp [ht])
    simp only [Phrase.rendered, List.forall_mem_singleton, List.map_cons, List.forall_mem_cons] at hstatement hmore ⊢
    exact ⟨hstatement, hmore⟩

theorem IsProgram.lineFeed_not_mem_render {statements : List Stmt} (h : IsProgram ts statements)
    (hts : ∀ t ∈ ts, t.FitsLine) : ∀ s ∈ statements, lineFeed ∉ s.render := by
  cases h with
  | mk _ _ hitems =>
    have hrendered := hitems.lineFeed_not_mem_rendered fun t ht => hts t (by simp [ht])
    exact fun s hs => hrendered _ (List.mem_map_of_mem hs)

end Grammar

namespace Program

open Grammar

/-- The listing of an accepted program has one line for each of its statements:
its tokens are a program with these statements, and each line is the statement
in print. -/
theorem treeListing_lines (source : Text) (haccepted : (ofSource source).accepted = true) :
    let p := ofSource source
    IsProgram (scan source).tokens p.statements ∧ IsLines p.treeListing (p.statements.map Stmt.render) ∧
      lineFeeds p.treeListing = p.statements.length := by
  intro p
  have hprogram : IsProgram (scan source).tokens p.statements :=
    isProgram_of_accepted (endsOnce_tokens source) haccepted
  have hsingle := hprogram.lineFeed_not_mem_render fun t ht => fitsLine_of_mem ht
  have hlines : IsLines p.treeListing (p.statements.map Stmt.render) := by
    rw [treeListing, if_pos haccepted]
    exact (isLines_flatMap_iff Stmt.render p.statements).2 hsingle
  exact ⟨hprogram, hlines, by rw [hlines.lineFeeds_eq, List.length_map]⟩

/-- A text over two lines, a line break and a nested statement. -/
theorem treeListing_lines_nested :
    let source : Text := ofString "SUGOD\nKUNG (OO) PUNDOK\x7bIPAKITA: \"a\nb\" & [n] & $\x7d\nHAYO = 'c'\nKATAPUSAN"
    (ofSource source).accepted = true ∧
      IsLines (ofSource source).treeListing
        [ofString "(KUNG OO (PUNDOK (IPAKITA (& (& \"a\\nb\" \"\\n\") \"\\n\"))))", ofString "(= HAYO 'c')"] ∧
      lineFeeds (ofSource source).treeListing = 2 := by
  intro source
  have haccepted : (ofSource source).accepted = true := by decide +kernel
  have hrendered : (ofSource source).statements.map Stmt.render =
      [ofString "(KUNG OO (PUNDOK (IPAKITA (& (& \"a\\nb\" \"\\n\") \"\\n\"))))", ofString "(= HAYO 'c')"] := by
    decide +kernel
  obtain ⟨-, hlines, hfeeds⟩ := treeListing_lines source haccepted
  rw [hrendered] at hlines
  have hlength := congrArg List.length hrendered
  rw [List.length_map] at hlength
  exact ⟨haccepted, hlines, hfeeds.trans hlength⟩

end Program

end BisayaPlus
