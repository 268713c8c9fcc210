import BisayaPlus.Proofs.Progress
/-!
# Complaints come in the order of the tokens

Reading complains about tokens from the front to the back, although some
complaints are about a token that was passed already: the sign of an assignment,
the first token of an initial value, a jump, a name that is declared twice. What
keeps them in order is that nothing is complained about between such a token and
the complaint about it. Expressions have at most one complaint, the one they get
stuck at.
-/

set_option autoImplicit false

namespace BisayaPlus

open TokenReader Grammar

/-! ## Complaints in order -/

/-- `Along ts complaints rest`: from `ts` on to `rest`, the complaints are about
tokens in their order. More than one may be about the same token. -/
inductive Along : List Token → List Complaint → List Token → Prop where
  | nil {ts rest : List Token} : rest <:+ ts → Along ts [] rest
  | cons {ts left rest : List Token} {c : Complaint} {more : List Complaint} : c.token :: left <:+ ts →
      Along (c.token :: left) more rest → Along ts (c :: more) rest

namespace Along

variable {ts ts' mid rest : List Token} {complaints more : List Complaint}

theorem mono (h : Along ts complaints rest) (hs : ts <:+ ts') : Along ts' complaints rest := by
  cases h with
  | nil h => exact .nil (h.trans hs)
  | cons hc h => exact .cons (hc.trans hs) h

theorem append (h : Along ts complaints mid) (h' : Along mid more rest) : Along ts (complaints ++ more) rest := by
  induction h with
  | nil hs => exact h'.mono hs
  | cons hc _ ih => exact .cons hc (ih h')

theorem trans_suffix (h : Along ts complaints mid) (hs : rest <:+ mid) : Along ts complaints rest := by
  simpa using h.append (.nil hs)

theorem single {c : Complaint} {left : List Token} (hc : c.token :: left <:+ ts) (hs : rest <:+ c.token :: left) :
    Along ts [c] rest :=
  .cons hc (.nil hs)

/-- The complaints, each with the place of its token in all the tokens. -/
theorem placed {tokens : List Token} {start : Nat} (h : Along ts complaints rest) (hts : tokens.drop start = ts) :
    ∃ placed : List (Nat × Complaint), placed.map (·.2) = complaints ∧ placed.Pairwise (·.1 ≤ ·.1) ∧
      ∀ entry ∈ placed, start ≤ entry.1 ∧ tokens[entry.1]? = some entry.2.token := by
  induction h generalizing start with
  | nil _ => exact ⟨[], rfl, .nil, by simp⟩
  | @cons ts left rest c more hc _ ih =>
    obtain ⟨taken, htaken⟩ := hc
    have hdrop : tokens.drop (start + taken.length) = c.token :: left := by
      rw [← List.drop_drop, hts, ← htaken, List.drop_left]
    obtain ⟨placed, rfl, hsorted, hplaced⟩ := ih hdrop
    refine ⟨(start + taken.length, c) :: placed, rfl, ?_, ?_⟩
    · exact List.pairwise_cons.2 ⟨fun entry hentry => (hplaced entry hentry).1, hsorted⟩
    · refine List.forall_mem_cons.2 ⟨⟨Nat.le_add_right _ _, (Walk.get_of_drop hdrop).1⟩, fun entry hentry => ?_⟩
      obtain ⟨hle, hget⟩ := hplaced entry hentry
      exact ⟨Nat.le_trans (Nat.le_add_right _ _) hle, hget⟩

end Along

/-! ## Readings in order -/

section Readings

variable {α : Type}

/-- All complaints of a reading. -/
def Reading.complaints : Reading α → List Complaint
  | read _ _ noted => noted
  | stuck complaint _ noted => noted ++ [complaint]

/-- The reading leaves tokens, and its complaints are in order from `start` on. -/
inductive Reading.Orderly (start : List Token) : Reading α → Prop where
  | read {a : α} {rest : List Token} {noted : List Complaint} : rest ≠ [] → Along start noted rest →
      Orderly start (.read a rest noted)
  | stuck {complaint : Complaint} {rest : List Token} {noted : List Complaint} : rest ≠ [] →
      Along start (noted ++ [complaint]) rest → Orderly start (.stuck complaint rest noted)

/-- The reading leaves tokens, and complains only if it gets stuck. -/
inductive Reading.Steady (start : List Token) : Reading α → Prop where
  | read {a : α} {rest : List Token} : rest ≠ [] → rest <:+ start → Steady start (.read a rest [])
  | stuck {complaint : Complaint} {rest : List Token} : rest ≠ [] → Along start [complaint] rest →
      Steady start (.stuck complaint rest [])

theorem Reading.Steady.orderly {start : List Token} {r : Reading α} (h : r.Steady start) : r.Orderly start := by
  cases h with
  | read hne hs => exact .read hne (.nil hs)
  | stuck hne hc => exact .stuck hne hc

theorem Reading.Orderly.mono {start start' : List Token} {r : Reading α} (h : r.Orderly start)
    (hs : start <:+ start') : r.Orderly start' := by
  cases h with
  | read hne hc => exact .read hne (hc.mono hs)
  | stuck hne hc => exact .stuck hne (hc.mono hs)

theorem Reading.Steady.mono {start start' : List Token} {r : Reading α} (h : r.Steady start)
    (hs : start <:+ start') : r.Steady start' := by
  cases h with
  | read hne hc => exact .read hne (hc.trans hs)
  | stuck hne hc => exact .stuck hne (hc.mono hs)

end Readings

namespace TokenReader

variable {α β : Type} {r : TokenReader α} {f : α → TokenReader β} {start ts rest : List Token} {t : Token}
  {wanted : Kind → Bool} {kind : Kind} {fault : SyntaxFault}

/-- On tokens with one end, the reader complains in their order. -/
def Orderly (r : TokenReader α) : Prop := ∀ ts, EndsOnce ts → (r.run ts).Orderly ts

/-- On tokens with one end, the reader complains only if it gets stuck. -/
def Steady (r : TokenReader α) : Prop := ∀ ts, EndsOnce ts → (r.run ts).Steady ts

theorem Steady.orderly (h : Steady r) : Orderly r := fun ts he => (h ts he).orderly

theorem Orderly.from (h : Orderly r) (he : EndsOnce ts) (hs : ts <:+ start) : (r.run ts).Orderly start :=
  (h ts he).mono hs

theorem Steady.from (h : Steady r) (he : EndsOnce ts) (hs : ts <:+ start) : (r.run ts).Steady start :=
  (h ts he).mono hs

/-- What comes after the complaints of the first part is in order behind them. -/
theorem orderly_bind (h : (r.run ts).Orderly start)
    (hf : ∀ a rest noted, r.run ts = .read a rest noted → rest ≠ [] → ((f a).run rest).Orderly rest) :
    ((r >>= f).run ts).Orderly start := by
  rw [run_bind]
  cases hr : r.run ts with
  | stuck complaint rest noted =>
    rw [hr] at h
    cases h with
    | stuck hne hc => exact .stuck hne hc
  | read a rest noted =>
    rw [hr] at h
    cases h with
    | read hne hc =>
      have hnext := hf a rest noted hr hne
      dsimp only
      generalize (f a).run rest = reading at hnext
      cases hnext with
      | read hne' hc' => exact .read hne' (hc.append hc')
      | stuck hne' hc' => exact .stuck hne' (by simpa using hc.append hc')

/-- After a part without a complaint, the next may complain about tokens that
this part took. -/
theorem steady_bind (h : (r.run ts).Steady start)
    (hf : ∀ a rest, r.run ts = .read a rest [] → rest ≠ [] → rest <:+ start → ((f a).run rest).Steady start) :
    ((r >>= f).run ts).Steady start := by
  rw [run_bind]
  cases hr : r.run ts with
  | stuck complaint rest noted =>
    rw [hr] at h
    cases h with
    | stuck hne hc => exact .stuck hne hc
  | read a rest noted =>
    rw [hr] at h
    cases h with
    | read hne hs =>
      dsimp only
      rw [Reading.after_nil]
      exact hf a rest hr hne hs

theorem Orderly.bind (h : Orderly r) (hf : ∀ a, Orderly (f a)) : Orderly (r >>= f) :=
  fun ts he => orderly_bind (h ts he) fun a rest _ hr hne => hf a rest (Walk.endsOnce_of_run he hr hne)

theorem Steady.bind (h : Steady r) (hf : ∀ a, Steady (f a)) : Steady (r >>= f) := by
  intro ts he
  refine steady_bind (h ts he) fun a rest hr hne hs => ?_
  exact (hf a).from (Walk.endsOnce_of_run he hr hne) hs

/-! ## Primitive readers -/

theorem steady_pure (a : α) : Steady (pure a : TokenReader α) :=
  fun _ he => .read (Walk.endsOnce_ne_nil he) (List.suffix_refl _)

theorem steady_stuckHere (fault : SyntaxFault) : Steady (stuckHere fault : TokenReader α) := by
  intro ts he
  cases ts with
  | nil => exact absurd rfl (Walk.endsOnce_ne_nil he)
  | cons t rest => exact .stuck (by simp) (.single (List.suffix_refl _) (List.suffix_refl _))

/-- A complaint about a token that was passed, if nothing else was complained
about on the way. -/
theorem steady_stuckAt (hne : ts ≠ []) (hs : ts <:+ t :: rest) :
    ((stuckAt fault t : TokenReader α).run ts).Steady (t :: rest) :=
  .stuck hne (.single (List.suffix_refl _) hs)

/-- What is left of the tokens behind one that is not the end. -/
theorem endsOnce_tail (he : EndsOnce (t :: rest)) (hk : t.kind ≠ .eof) : EndsOnce rest :=
  he.cons.elim (fun h => absurd h.1 hk) (·.2)

/-- A look at the next token finds one. -/
theorem run_peek_elim {P : Reading β → Prop} {f : Token → TokenReader β} (he : EndsOnce ts)
    (h : ∀ t rest, ts = t :: rest → P ((f t).run (t :: rest))) : P ((peek >>= f).run ts) := by
  cases ts with
  | nil => exact absurd rfl (Walk.endsOnce_ne_nil he)
  | cons t rest =>
    rw [run_peek]
    exact h t rest rfl

/-- A token that is taken is not the end. -/
theorem run_take?_elim {P : Reading β → Prop} {f : Option Token → TokenReader β} (hw : wanted .eof = false)
    (he : EndsOnce ts) (hn : P ((f none).run ts))
    (hs : ∀ t rest, ts = t :: rest → EndsOnce rest → wanted t.kind = true → P ((f (some t)).run rest)) :
    P ((take? wanted >>= f).run ts) := by
  cases ts with
  | nil => exact absurd rfl (Walk.endsOnce_ne_nil he)
  | cons t rest =>
    cases ht : wanted t.kind with
    | false =>
      rw [Walk.run_take?_none f ht]
      exact hn
    | true =>
      have hk : t.kind ≠ .eof := by
        intro heof
        rw [heof, hw] at ht
        cases ht
      rw [Walk.run_take?_some f ht]
      exact hs t rest rfl (endsOnce_tail he hk) ht

theorem steady_expect (fault : SyntaxFault) (hk : kind ≠ .eof) : Steady (expect kind fault) := by
  intro ts he
  cases ts with
  | nil => exact absurd rfl (Walk.endsOnce_ne_nil he)
  | cons t rest =>
    simp only [expect]
    split
    · next ht =>
      have hrest := endsOnce_tail he (ht ▸ hk)
      exact .read (Walk.endsOnce_ne_nil hrest) (List.suffix_cons t rest)
    · exact .stuck (by simp) (.single (List.suffix_refl _) (List.suffix_refl _))

/-- The token that is expected may be blamed for what follows it. -/
theorem orderly_expect {f : Token → TokenReader β} (fault : SyntaxFault) (hk : kind ≠ .eof)
    (h : ∀ t rest, EndsOnce rest → ((f t).run rest).Orderly (t :: rest)) : Orderly (expect kind fault >>= f) := by
  intro ts he
  cases ts with
  | nil => exact absurd rfl (Walk.endsOnce_ne_nil he)
  | cons t rest =>
    by_cases ht : t.kind = kind
    · simp only [run_bind, expect, ht, if_true, Reading.after_nil]
      exact h t rest (endsOnce_tail he (ht ▸ hk))
    · simp only [run_bind, expect, ht, if_false]
      exact .stuck (by simp) (.single (List.suffix_refl _) (List.suffix_refl _))

/-- A complaint about the token that was just passed, and does not stop reading. -/
theorem orderly_noting {c : Prop} [Decidable c] {f : PUnit → TokenReader β} (h : ∀ u, Orderly (f u))
    (he : EndsOnce rest) : ((if c then note fault t >>= f else f ⟨⟩).run rest).Orderly (t :: rest) := by
  have hs : rest <:+ t :: rest := List.suffix_cons t rest
  split
  · have hnote : ((note fault t).run rest).Orderly (t :: rest) :=
      .read (Walk.endsOnce_ne_nil he) (.single (List.suffix_refl _) hs)
    refine orderly_bind hnote fun u left noted hr hne => ?_
    exact h u left (Walk.endsOnce_of_run he hr hne)
  · exact (h ⟨⟩).from he hs

/-- A complaint about the next token that does not stop reading. -/
theorem orderly_noteNext {f : PUnit → TokenReader β} (h : ((f ⟨⟩).run (t :: rest)).Orderly (t :: rest)) :
    ((note fault t >>= f).run (t :: rest)).Orderly (t :: rest) := by
  have hnote : ((note fault t).run (t :: rest)).Orderly (t :: rest) :=
    .read (by simp) (.single (List.suffix_refl _) (List.suffix_refl _))
  refine orderly_bind hnote fun u left noted hr _ => ?_
  obtain ⟨-, rfl, -⟩ := Reading.read.inj hr
  exact h

theorem afterNewlines_ne_nil (he : EndsOnce ts) : afterNewlines ts ≠ [] := by
  induction ts with
  | nil => exact absurd rfl (Walk.endsOnce_ne_nil he)
  | cons t rest ih =>
    by_cases hk : t.kind = .newline
    · rw [afterNewlines_newline hk]
      exact ih (endsOnce_tail he (by simp [hk]))
    · have hstop : afterNewlines (t :: rest) = t :: rest := afterNewlines_of_ne hk
      simp [hstop]

theorem steady_skipNewlines : Steady skipNewlines :=
  fun _ he => .read (afterNewlines_ne_nil he) (List.dropWhile_suffix _)

theorem steady_takePast? (hk : kind ≠ .eof) : Steady (takePast? kind) := by
  intro ts he
  have hs : afterNewlines ts <:+ ts := List.dropWhile_suffix _
  have hne := afterNewlines_ne_nil he
  simp only [takePast?]
  cases hnext : afterNewlines ts with
  | nil => exact absurd hnext hne
  | cons t rest =>
    rw [hnext] at hs
    dsimp only
    split
    · next ht =>
      have hrest := endsOnce_tail (Walk.endsOnce_rest he hs (by simp)) (ht ▸ hk)
      exact .read (Walk.endsOnce_ne_nil hrest) ((List.suffix_cons t rest).trans hs)
    · exact .read (Walk.endsOnce_ne_nil he) (List.suffix_refl _)

/-- Reading is taken up behind the token that was complained about. -/
theorem Orderly.orResume (h : Orderly r) : Orderly (orResume r) := by
  intro ts he
  have hr := h ts he
  have hsuffix := r.rest_suffix ts
  rw [run_orResume]
  generalize r.run ts = reading at hr hsuffix
  cases hr with
  | read hne hc => exact .read hne hc
  | stuck hne hc =>
    refine .read (Walk.resume_ne_nil (Walk.endsOnce_rest he hsuffix hne)) ?_
    exact hc.trans_suffix (resume_suffix _)

end TokenReader

/-! ## Expressions -/

namespace Expr

variable {isOperator : Kind → Bool} {operand nested unary : TokenReader Expr}

theorem steady_moreOperands (ho : isOperator .eof = false) (build : Expr → Token → Expr → Expr)
    (h : Steady operand) (bound : Nat) : ∀ left, Steady (moreOperands isOperator build operand bound left) := by
  induction bound with
  | zero => exact steady_pure
  | succ bound ih =>
    intro left ts he
    refine run_take?_elim (P := (·.Steady ts)) ho he (steady_pure left ts he) fun operator rest hts hrest _ => ?_
    subst hts
    exact (h.bind fun right => ih _).from hrest (List.suffix_cons operator rest)

theorem steady_leftGrouped (ho : isOperator .eof = false) (build : Expr → Token → Expr → Expr) (bound : Nat)
    (h : Steady operand) : Steady (leftGrouped isOperator build bound operand) :=
  h.bind fun left => steady_moreOperands ho build h bound left

theorem steady_readTerm (bound : Nat) (h : Steady unary) : Steady (readTerm bound unary) := by
  refine (steady_leftGrouped rfl _ bound (steady_leftGrouped rfl _ bound h)).bind fun term ts he => ?_
  refine run_peek_elim (P := (·.Steady ts)) he fun t rest hts => ?_
  subst hts
  split
  · exact steady_stuckHere _ _ he
  · exact steady_pure term _ he

theorem steady_readDisjunction (bound : Nat) (h : Steady unary) : Steady (readDisjunction bound unary) := by
  refine steady_leftGrouped rfl _ bound (steady_leftGrouped rfl _ bound ?_)
  exact steady_leftGrouped rfl _ bound (steady_leftGrouped rfl _ bound (steady_readTerm bound h))

theorem steady_readPrimary (h : Steady nested) : Steady (readPrimary nested) := by
  intro ts he
  refine run_peek_elim (P := (·.Steady ts)) he fun t rest hts => ?_
  subst hts
  have hs : rest <:+ t :: rest := List.suffix_cons t rest
  cases hliteral : literalOf? t with
  | some value =>
    dsimp only
    rw [run_skip]
    exact (steady_pure _).from (endsOnce_tail he (Walk.ne_eof_of_literal hliteral)) hs
  | none =>
    dsimp only
    split
    · next hk =>
      have hrest : EndsOnce rest := endsOnce_tail he (by simp [hk])
      rw [run_skip]
      refine run_take?_elim (P := (·.Steady (t :: rest))) rfl hrest ((steady_pure _).from hrest hs) ?_
      intro operator rest' hrest' he' _
      subst hrest'
      exact (steady_pure _).from he' ((List.suffix_cons operator rest').trans hs)
    · next hk =>
      rw [run_skip]
      refine (h.bind fun inner => ?_).from (endsOnce_tail he (by simp [hk])) hs
      exact (steady_expect _ (by decide)).bind fun _ => steady_pure _
    · exact steady_stuckHere _ _ he

/-- By induction on the budget. A sign that cannot stand where it stands is
blamed when its operand has been read. -/
theorem steady_readers (budget : Nat) : Steady (readUnary budget) ∧ Steady (readWithin budget) := by
  induction budget with
  | zero => exact ⟨steady_stuckHere _, steady_stuckHere _⟩
  | succ budget ih =>
    obtain ⟨hunary, hwithin⟩ := ih
    constructor
    · intro ts he
      rw [readUnary]
      refine run_take?_elim (P := (·.Steady ts)) rfl he (steady_readPrimary hwithin ts he) ?_
      intro operator rest hts hrest _
      subst hts
      refine steady_bind (hunary.from hrest (List.suffix_cons _ _)) fun right left hr hne hs => ?_
      have hleft := Walk.endsOnce_of_run hrest hr hne
      split
      · split
        · exact (steady_pure _).from hleft hs
        · exact steady_stuckAt hne hs
      · exact (steady_pure _).from hleft hs
    · rw [readWithin]
      refine (steady_readDisjunction budget hunary).bind fun left ts he => ?_
      refine run_take?_elim (P := (·.Steady ts)) rfl he (steady_pure left ts he) ?_
      intro sign rest hts hrest _
      subst hts
      refine steady_bind (hwithin.from hrest (List.suffix_cons _ _)) fun value rest' hr hne hs => ?_
      split
      · exact (steady_pure _).from (Walk.endsOnce_of_run hrest hr hne) hs
      · exact steady_stuckAt hne hs

theorem steady_readWithin (budget : Nat) : Steady (readWithin budget) := (steady_readers budget).2

end Expr

/-! ## Parts of statements -/

namespace Stmt

variable {expression : TokenReader Expr} {statement : TokenReader Stmt}

theorem steady_endStatement : Steady endStatement := by
  intro ts he
  refine run_take?_elim (P := (·.Steady ts)) rfl he ?_ fun newline rest hts hrest _ => ?_
  · refine run_peek_elim (P := (·.Steady ts)) he fun t rest hts => ?_
    subst hts
    split
    · exact steady_pure _ _ he
    · exact steady_stuckHere _ _ he
  · subst hts
    exact (steady_pure _).from hrest (List.suffix_cons _ _)

theorem steady_readCondition (hx : Steady expression) : Steady (readCondition expression) := by
  refine (steady_expect _ (by decide)).bind fun _ => hx.bind fun condition => ?_
  exact (steady_expect _ (by decide)).bind fun _ => steady_pure condition

/-- An initial value that does not fit is blamed at its first token. -/
theorem steady_checkInitializer {declared : DataType} {start : Token} {rest ts : List Token} {e : Expr}
    (he : EndsOnce ts) (hs : ts <:+ start :: rest) :
    ((checkInitializer declared start e).run ts).Steady (start :: rest) := by
  have hpure : ∀ e : Expr, ((pure e : TokenReader Expr).run ts).Steady (start :: rest) :=
    fun e => (steady_pure e).from he hs
  have hstuck : ∀ fault, ((stuckAt fault start : TokenReader Expr).run ts).Steady (start :: rest) :=
    fun fault => steady_stuckAt (Walk.endsOnce_ne_nil he) hs
  unfold checkInitializer
  split
  · exact hpure _
  · split
    · exact hpure _
    · exact hstuck _
  · split
    · exact hpure _
    · exact hstuck _
  · exact hpure _

theorem steady_readInitializer (declared : DataType) (hx : Steady expression) :
    Steady (readInitializer declared expression) := by
  intro ts he
  refine run_take?_elim (P := (·.Steady ts)) rfl he (steady_pure _ ts he) fun sign rest hts hrest _ => ?_
  subst hts
  refine run_peek_elim (P := (·.Steady (sign :: rest))) hrest fun start rest' hstart => ?_
  subst hstart
  refine Reading.Steady.mono ?_ (List.suffix_cons _ _)
  refine steady_bind (hx _ hrest) fun e left hr hne hs => ?_
  have hleft := Walk.endsOnce_of_run hrest hr hne
  refine steady_bind (steady_checkInitializer hleft hs) fun checked left' hr' hne' hs' => ?_
  exact (steady_pure _).from (Walk.endsOnce_of_run hleft hr' hne') hs'

theorem steady_readNames (bound : Nat) : Steady (readNames bound) := by
  induction bound with
  | zero => exact steady_pure []
  | succ bound ih =>
    refine (steady_expect _ (by decide)).bind fun name ts he => ?_
    refine run_take?_elim (P := (·.Steady ts)) rfl he (steady_pure _ ts he) fun comma rest hts hrest _ => ?_
    subst hts
    exact (ih.bind fun more => steady_pure _).from hrest (List.suffix_cons _ _)

/-- A name that is declared twice is noted right behind it. -/
theorem orderly_readDeclared (declared : DataType) (single : Bool) (hx : Steady expression) (bound : Nat) :
    ∀ seen, Orderly (readDeclared declared single expression bound seen) := by
  induction bound with
  | zero => exact fun _ => (steady_pure []).orderly
  | succ bound ih =>
    intro seen
    refine orderly_expect _ (by decide) fun name rest hrest => ?_
    refine orderly_noting (fun _ => ?_) hrest
    refine (steady_readInitializer declared hx).orderly.bind fun initial ts he => ?_
    split
    · exact (steady_pure _ ts he).orderly
    · refine run_take?_elim (P := (·.Orderly ts)) rfl he (steady_pure _ ts he).orderly fun comma rest hts hrest _ => ?_
      subst hts
      exact ((ih _).bind fun more => (steady_pure _).orderly).from hrest (List.suffix_cons _ _)

theorem orderly_readDeclaration (keyword : Token) (single : Bool) (bound : Nat) (hx : Steady expression) :
    Orderly (readDeclaration keyword single bound expression) := by
  intro ts he
  refine run_peek_elim (P := (·.Orderly ts)) he fun t rest hts => ?_
  subst hts
  split
  · exact (steady_stuckHere _ _ he).orderly
  · next declared htype =>
    rw [run_skip]
    refine ((orderly_readDeclared declared single hx bound []).bind fun names => ?_).from ?_ (List.suffix_cons _ _)
    · exact (steady_pure _).orderly
    · exact endsOnce_tail he (Walk.ne_eof_of_dataType htype)

theorem orderly_readAlternatives (hx : Steady expression) (hs : Orderly statement) (bound : Nat) :
    Orderly (readAlternatives expression statement bound) := by
  induction bound with
  | zero => exact (steady_pure []).orderly
  | succ bound ih =>
    refine (steady_takePast? (by decide)).orderly.bind fun o => ?_
    cases o with
    | none => exact (steady_pure []).orderly
    | some _ =>
      refine (steady_readCondition hx).orderly.bind fun condition => hs.bind fun inner => ?_
      exact ih.bind fun more => (steady_pure _).orderly

theorem orderly_readOtherwise (hs : Orderly statement) : Orderly (readOtherwise statement) := by
  refine (steady_takePast? (by decide)).orderly.bind fun o => ?_
  cases o with
  | none => exact (steady_pure none).orderly
  | some _ => exact hs.bind fun inner => (steady_pure _).orderly

/-- The round of a loop over statements: a newline, or a statement that may be
dropped. -/
theorem orderly_round {others : TokenReader (List Stmt)} (hs : Orderly statement) (ho : Orderly others) :
    Orderly (orResume statement >>= fun read => others >>= fun more => pure (read.toList ++ more)) :=
  hs.orResume.bind fun _ => ho.bind fun _ => (steady_pure _).orderly

theorem orderly_readItems (hs : Orderly statement) (bound : Nat) : Orderly (readItems statement bound) := by
  induction bound with
  | zero => exact (steady_pure []).orderly
  | succ bound ih =>
    intro ts he
    refine run_peek_elim (P := (·.Orderly ts)) he fun t rest hts => ?_
    subst hts
    dsimp only
    split
    · exact (steady_pure [] _ he).orderly
    · next hk =>
      split
      · next hnewline =>
        rw [run_skip]
        exact ih.from (endsOnce_tail he (by simp [hnewline])) (List.suffix_cons _ _)
      · exact orderly_round hs ih _ he

theorem orderly_readBlock (bound : Nat) (hs : Orderly statement) : Orderly (readBlock bound statement) := by
  refine (steady_expect _ (by decide)).orderly.bind fun _ => (orderly_readItems hs bound).bind fun body => ?_
  exact ((steady_expect _ (by decide)).bind fun _ => steady_pure body).orderly

theorem orderly_readStart (bound : Nat) (hx : Steady expression) : Orderly (readStart bound expression) := by
  intro ts he
  refine run_take?_elim (P := (·.Orderly ts)) rfl he ?_ fun keyword rest hts hrest _ => ?_
  · refine run_peek_elim (P := (·.Orderly ts)) he fun t rest hts => ?_
    subst hts
    split
    · exact (steady_pure none _ he).orderly
    · exact ((hx.bind fun e => steady_pure _) _ he).orderly
  · subst hts
    have hs : rest <:+ keyword :: rest := List.suffix_cons keyword rest
    refine ((orderly_readDeclaration keyword true bound hx).bind fun declaration => ?_).from hrest hs
    exact (steady_pure _).orderly

theorem steady_readUnless (kind : Kind) (hx : Steady expression) : Steady (readUnless kind expression) := by
  intro ts he
  refine run_peek_elim (P := (·.Steady ts)) he fun t rest hts => ?_
  subst hts
  split
  · exact steady_pure none _ he
  · exact (hx.bind fun e => steady_pure _) _ he

theorem orderly_readCountedLoop (keyword : Token) (bound : Nat) (hx : Steady expression) (hs : Orderly statement) :
    Orderly (readCountedLoop keyword bound expression statement) := by
  have hexpect : ∀ kind fault, kind ≠ .eof → Orderly (expect kind fault) := fun kind fault hk =>
    (steady_expect fault hk).orderly
  refine (hexpect _ _ (by decide)).bind fun _ => (orderly_readStart bound hx).bind fun start => ?_
  refine (hexpect _ _ (by decide)).bind fun _ => (steady_readUnless .comma hx).orderly.bind fun condition => ?_
  refine (hexpect _ _ (by decide)).bind fun _ => (steady_readUnless .rightParen hx).orderly.bind fun increment => ?_
  exact (hexpect _ _ (by decide)).bind fun _ => hs.bind fun inner => (steady_pure _).orderly

theorem orderly_readBody (hs : Orderly statement) : Orderly (readBody statement) :=
  steady_skipNewlines.orderly.bind fun _ => hs

theorem orderly_ended (s : Stmt) : Orderly (endStatement >>= fun _ => pure s) :=
  (steady_endStatement.bind fun _ => steady_pure s).orderly

/-! ## Statements and programs -/

/-- A jump outside a loop is blamed at its keyword, right behind it. -/
theorem orderly_readJump {loops : Nat} {keyword : Token} {rest : List Token} (jump : Stmt) (he : EndsOnce rest) :
    ((readJump loops keyword jump).run rest).Orderly (keyword :: rest) := by
  have hs : rest <:+ keyword :: rest := List.suffix_cons keyword rest
  unfold readJump
  split
  · exact (steady_stuckAt (Walk.endsOnce_ne_nil he) hs).orderly
  · exact (orderly_ended jump).from he hs

theorem orderly_readKeyword (loops bound : Nat) {inLoop : TokenReader Stmt} {keyword : Token} {rest : List Token}
    (hx : Steady expression) (hs : Orderly statement) (hl : Orderly inLoop) (he : EndsOnce rest) :
    ((readKeyword loops bound expression statement inLoop keyword).run rest).Orderly (keyword :: rest) := by
  have hfrom : ∀ {r : TokenReader Stmt}, Orderly r → (r.run rest).Orderly (keyword :: rest) :=
    fun hr => hr.from he (List.suffix_cons keyword rest)
  have hcolon : Orderly (expect .colon .expectedColon) := (steady_expect _ (by decide)).orderly
  have hcondition : Orderly (readCondition expression) := (steady_readCondition hx).orderly
  unfold readKeyword
  split
  · exact hfrom ((orderly_readDeclaration keyword false bound hx).bind fun _ => orderly_ended _)
  · exact hfrom (hcolon.bind fun _ => hx.orderly.bind fun e => orderly_ended _)
  · exact hfrom (hcolon.bind fun _ => (steady_readNames bound).orderly.bind fun names => orderly_ended _)
  · refine hfrom (hcondition.bind fun condition => (orderly_readBody hs).bind fun body => ?_)
    refine (orderly_readAlternatives hx (orderly_readBody hs) bound).bind fun alternatives => ?_
    exact (orderly_readOtherwise (orderly_readBody hs)).bind fun otherwise => (steady_pure _).orderly
  · exact hfrom (hcondition.bind fun condition => (orderly_readBody hl).bind fun body => (steady_pure _).orderly)
  · refine hfrom ((orderly_readBody hl).bind fun body => steady_skipNewlines.orderly.bind fun _ => ?_)
    refine (steady_expect _ (by decide)).orderly.bind fun _ => ?_
    exact hcondition.bind fun condition => orderly_ended _
  · exact hfrom (orderly_readCountedLoop keyword bound hx (orderly_readBody hl))
  · exact orderly_readJump _ he
  · exact orderly_readJump _ he
  · exact hfrom ((orderly_readBlock bound hs).bind fun body => (steady_pure _).orderly)

theorem orderly_readWithin (budget : Nat) : ∀ loops, Orderly (readWithin budget loops) := by
  induction budget with
  | zero => exact fun _ => (steady_stuckHere _).orderly
  | succ budget ih =>
    intro loops ts he
    have hx : Steady (Expr.readWithin budget) := Expr.steady_readWithin budget
    rw [readWithin]
    refine run_take?_elim (P := (·.Orderly ts)) rfl he ?_ fun keyword rest hts hrest _ => ?_
    · exact (hx.orderly.bind fun e => orderly_ended _) ts he
    · subst hts
      exact orderly_readKeyword loops budget hx (ih loops) (ih (loops + 1)) hrest

end Stmt

namespace ReadProgram

open Stmt

theorem orderly_readTop {statement : TokenReader Stmt} (hs : Orderly statement) (bound : Nat) :
    Orderly (readTop statement bound) := by
  induction bound with
  | zero => exact (steady_pure []).orderly
  | succ bound ih =>
    intro ts he
    refine run_peek_elim (P := (·.Orderly ts)) he fun t rest hts => ?_
    subst hts
    split
    · exact (steady_pure [] _ he).orderly
    · next hstop =>
      have hrest : EndsOnce rest := endsOnce_tail he fun h => hstop (.inl h)
      split
      · rw [run_skip]
        exact ih.from hrest (List.suffix_cons _ _)
      · split
        · refine orderly_noteNext ?_
          rw [run_skip]
          exact ih.from hrest (List.suffix_cons _ _)
        · exact orderly_round hs ih _ he

theorem orderly_readEnd : Orderly readEnd := by
  intro ts he
  refine run_take?_elim (P := (·.Orderly ts)) rfl he ?_ fun stop rest hts hrest _ => ?_
  · refine run_peek_elim (P := (·.Orderly ts)) he fun t rest hts => ?_
    subst hts
    exact orderly_noteNext (steady_pure false _ he).orderly
  · subst hts
    refine (steady_skipNewlines.orderly.bind fun _ ts he => ?_).from hrest (List.suffix_cons _ _)
    refine run_peek_elim (P := (·.Orderly ts)) he fun t rest hts => ?_
    subst hts
    dsimp only
    split
    · exact orderly_noteNext (steady_pure true _ he).orderly
    · exact (steady_pure true _ he).orderly

theorem orderly_readAll (budget : Nat) : Orderly (readAll budget) := by
  have hrest : Orderly (readTop (Stmt.readWithin budget 0) budget >>= fun statements =>
      readEnd >>= fun ended => pure (statements, ended)) :=
    (orderly_readTop (Stmt.orderly_readWithin budget 0) budget).bind fun statements =>
      orderly_readEnd.bind fun ended => (steady_pure _).orderly
  refine steady_skipNewlines.orderly.bind fun _ ts he => ?_
  refine run_take?_elim (P := (·.Orderly ts)) rfl he ?_ fun start rest hts hstart _ => ?_
  · refine run_peek_elim (P := (·.Orderly ts)) he fun t rest hts => ?_
    subst hts
    exact orderly_noteNext (hrest _ he)
  · subst hts
    exact hrest.from hstart (List.suffix_cons _ _)

theorem complaints_ofTokens (tokens : List Token) :
    (ofTokens tokens).complaints = ((readAll (2 * tokens.length + 3)).run tokens).complaints := by
  unfold ofTokens
  cases (readAll (2 * tokens.length + 3)).run tokens <;> rfl

/-- The complaints about a program are in the order of its tokens. -/
theorem placed_ofTokens {tokens : List Token} (he : EndsOnce tokens) :
    ∃ placed : List (Nat × Complaint), placed.map (·.2) = (ofTokens tokens).complaints ∧
      placed.Pairwise (·.1 ≤ ·.1) ∧ ∀ entry ∈ placed, 0 ≤ entry.1 ∧ tokens[entry.1]? = some entry.2.token := by
  have hread := orderly_readAll (2 * tokens.length + 3) tokens he
  rw [complaints_ofTokens]
  generalize (readAll (2 * tokens.length + 3)).run tokens = reading at hread
  cases hread with
  | read _ hc => exact hc.placed rfl
  | stuck _ hc => exact hc.placed rfl

end ReadProgram

end BisayaPlus
