import BisayaPlus.Proofs.Reading
/-!
# Budgets do not show

The budget of a reader only bounds its recursion. Two readers with different
budgets agree on every list of tokens that is short for both: each level of
nesting and each round of a loop takes a token, and an expression takes two
steps of the budget for it.
-/

set_option autoImplicit false

namespace BisayaPlus

namespace TokenReader

variable {α β : Type}

/-! ## Agreement -/

/-- The readers give the same on every list of at most `n` tokens. -/
def Agree (n : Nat) (r r' : TokenReader α) : Prop := ∀ ts, ts.length ≤ n → r.run ts = r'.run ts

theorem Agree.refl (n : Nat) (r : TokenReader α) : Agree n r r := fun _ _ => rfl

theorem Agree.mono {n m : Nat} {r r' : TokenReader α} (h : Agree n r r') (hm : m ≤ n) : Agree m r r' :=
  fun ts hts => h ts (Nat.le_trans hts hm)

theorem agree_zero {r r' : TokenReader α} (h : r.run [] = r'.run []) : Agree 0 r r' := by
  intro ts hts
  obtain rfl := List.length_eq_zero_iff.1 (Nat.le_zero.1 hts)
  exact h

variable {n : Nat}

/-- Composed readers agree if the second parts agree on what the first one leaves. -/
theorem run_bind_congr {r r' : TokenReader α} {f f' : α → TokenReader β} {ts : List Token} (h : r.run ts = r'.run ts)
    (hf : ∀ a rest noted, r.run ts = .read a rest noted → (f a).run rest = (f' a).run rest) :
    (r >>= f).run ts = (r' >>= f').run ts := by
  rw [run_bind, run_bind, ← h]
  cases hr : r.run ts with
  | read a rest noted =>
    dsimp only
    rw [hf a rest noted hr]
  | stuck complaint rest noted => rfl

theorem Agree.bind {r r' : TokenReader α} {f f' : α → TokenReader β} (h : Agree n r r')
    (hf : ∀ a, Agree n (f a) (f' a)) : Agree n (r >>= f) (r' >>= f') := by
  intro ts hts
  refine run_bind_congr (h ts hts) fun a rest noted hr => hf a rest ?_
  exact Nat.le_trans (length_le_of_run hr) hts

theorem Agree.orResume {r r' : TokenReader α} (h : Agree n r r') : Agree n (orResume r) (orResume r') := by
  intro ts hts
  rw [run_orResume, run_orResume, h ts hts]

theorem agree_skip {f f' : PUnit → TokenReader β} (h : Agree (n - 1) (f ⟨⟩) (f' ⟨⟩)) :
    Agree n (skip >>= f) (skip >>= f') := by
  intro ts hts
  refine run_bind_congr rfl fun a rest noted hr => h rest ?_
  obtain ⟨-, rfl, -⟩ := Reading.read.inj hr
  rw [List.length_tail]
  omega

theorem agree_take? {wanted : Kind → Bool} {f f' : Option Token → TokenReader β} (hn : Agree n (f none) (f' none))
    (hs : ∀ t, ∀ m < n, Agree m (f (some t)) (f' (some t))) : Agree n (take? wanted >>= f) (take? wanted >>= f') := by
  intro ts hts
  refine run_bind_congr rfl fun o rest noted hr => ?_
  cases ts with
  | nil =>
    obtain ⟨rfl, rfl, -⟩ := Reading.read.inj hr
    exact hn [] hts
  | cons t ts =>
    simp only [take?] at hr
    split at hr
    · obtain ⟨rfl, rfl, -⟩ := Reading.read.inj hr
      exact hs t ts.length hts ts (Nat.le_refl _)
    · obtain ⟨rfl, rfl, -⟩ := Reading.read.inj hr
      exact hn (t :: ts) hts

theorem agree_takePast? {kind : Kind} {f f' : Option Token → TokenReader β} (hn : Agree n (f none) (f' none))
    (hs : ∀ t, ∀ m < n, Agree m (f (some t)) (f' (some t))) :
    Agree n (takePast? kind >>= f) (takePast? kind >>= f') := by
  intro ts hts
  refine run_bind_congr rfl fun o rest noted hr => ?_
  have hlen : (afterNewlines ts).length ≤ ts.length := (List.dropWhile_suffix _).length_le
  simp only [takePast?] at hr
  split at hr
  · next t rest' ht =>
    rw [ht, List.length_cons] at hlen
    split at hr
    · obtain ⟨rfl, rfl, -⟩ := Reading.read.inj hr
      exact hs t rest'.length (by omega) rest' (Nat.le_refl _)
    · obtain ⟨rfl, rfl, -⟩ := Reading.read.inj hr
      exact hn ts hts
  · obtain ⟨rfl, rfl, -⟩ := Reading.read.inj hr
    exact hn ts hts

theorem agree_expect {kind : Kind} {fault : SyntaxFault} {f f' : Token → TokenReader β}
    (h : ∀ t, ∀ m < n, Agree m (f t) (f' t)) : Agree n (expect kind fault >>= f) (expect kind fault >>= f') := by
  intro ts hts
  refine run_bind_congr rfl fun a rest noted hr => ?_
  cases ts with
  | nil => cases hr
  | cons t ts =>
    simp only [expect] at hr
    split at hr
    · obtain ⟨rfl, rfl, -⟩ := Reading.read.inj hr
      exact h t ts.length hts ts (Nat.le_refl _)
    · cases hr

theorem agree_noting {c : Prop} [Decidable c] {fault : SyntaxFault} {t : Token} {f f' : PUnit → TokenReader β}
    (h : ∀ u, Agree n (f u) (f' u)) :
    Agree n (if c then note fault t >>= f else f ⟨⟩) (if c then note fault t >>= f' else f' ⟨⟩) := by
  split
  · exact (Agree.refl n _).bind h
  · exact h ⟨⟩

/-! ## Readers that take a token -/

/-- Whenever the reader gives a value, it has taken a token at least. -/
def Consumes (r : TokenReader α) : Prop :=
  ∀ ts a rest noted, r.run ts = .read a rest noted → rest.length < ts.length

theorem Consumes.bind {r : TokenReader α} (h : Consumes r) (f : α → TokenReader β) : Consumes (r >>= f) := by
  intro ts b rest noted hr
  rw [run_bind] at hr
  split at hr
  · next a mid noted' hfirst =>
    have hle := ((f a).rest_suffix mid).length_le
    rw [← Reading.rest_after noted', hr] at hle
    exact Nat.lt_of_le_of_lt hle (h ts a mid noted' hfirst)
  · cases hr

theorem consumes_take? {wanted : Kind → Bool} {f : Option Token → TokenReader β} (h : Consumes (f none)) :
    Consumes (take? wanted >>= f) := by
  intro ts b rest noted hr
  cases ts with
  | nil =>
    rw [run_bind, show (take? wanted).run [] = .read none [] [] from rfl] at hr
    dsimp only at hr
    rw [Reading.after_nil] at hr
    exact h [] b rest noted hr
  | cons t ts =>
    by_cases hw : wanted t.kind
    · simp only [run_bind, take?, hw, if_true, Reading.after_nil] at hr
      exact Nat.lt_succ_of_le (length_le_of_run hr)
    · simp only [run_bind, take?, hw, Bool.false_eq_true, if_false, Reading.after_nil] at hr
      exact h (t :: ts) b rest noted hr

/-- Unless reading stopped at an end right away, taking up again takes a token. -/
theorem resume_lt {ts rest : List Token} (hs : rest <:+ ts) (he : endsBlock (nextKind ts) = false) :
    (resume rest).length < ts.length := by
  have hle := (resume_suffix rest).length_le
  rcases Nat.lt_or_ge rest.length ts.length with hlt | hge
  · omega
  · obtain rfl := hs.eq_of_length_le hge
    cases rest with
    | nil => cases he
    | cons t rest =>
      rw [nextKind_cons] at he
      have hskip := (skipLine_suffix rest).length_le
      rw [resume, he]
      split
      · contradiction
      · split
        · simp
        · simp only [List.length_cons]
          omega

theorem Consumes.orResume {r : TokenReader α} (h : Consumes r) {ts rest : List Token} {o : Option α}
    {noted : List Complaint} (he : endsBlock (nextKind ts) = false)
    (hr : (orResume r).run ts = .read o rest noted) : rest.length < ts.length := by
  have hs := r.rest_suffix ts
  rw [run_orResume] at hr
  split at hr
  · next a rest' noted' hread =>
    obtain ⟨-, rfl, -⟩ := Reading.read.inj hr
    exact h ts a rest' noted' hread
  · next complaint rest' noted' hread =>
    obtain ⟨-, rfl, -⟩ := Reading.read.inj hr
    rw [hread] at hs
    exact resume_lt hs he

end TokenReader

open TokenReader

/-! ## Expressions -/

namespace Expr

variable {n b b' : Nat} {isOperator : Kind → Bool} {build : Expr → Token → Expr → Expr}
  {operand operand' : TokenReader Expr}

theorem moreOperands_nil (b : Nat) (left : Expr) :
    (moreOperands isOperator build operand b left).run [] = .read left [] [] := by
  cases b <;> rfl

theorem agree_moreOperands (n : Nat) : ∀ {b b' : Nat}, Agree n operand operand' → n ≤ b → n ≤ b' → ∀ left,
    Agree n (moreOperands isOperator build operand b left) (moreOperands isOperator build operand' b' left) := by
  induction n using Nat.strongRecOn with
  | ind n ih =>
    intro b b' h hb hb' left
    cases n with
    | zero => exact agree_zero (by rw [moreOperands_nil, moreOperands_nil])
    | succ n =>
      obtain ⟨b, rfl⟩ : ∃ k, b = k + 1 := ⟨b - 1, by omega⟩
      obtain ⟨b', rfl⟩ : ∃ k, b' = k + 1 := ⟨b' - 1, by omega⟩
      refine agree_take? (.refl _ _) fun operator m hm => ?_
      have hop := h.mono (Nat.le_of_lt hm)
      exact hop.bind fun right => ih m hm hop (by omega) (by omega) _

theorem agree_leftGrouped (h : Agree n operand operand') (hb : n ≤ b) (hb' : n ≤ b') :
    Agree n (leftGrouped isOperator build b operand) (leftGrouped isOperator build b' operand') :=
  h.bind fun left => agree_moreOperands n h hb hb' left

theorem agree_readTerm (h : Agree n operand operand') (hb : n ≤ b) (hb' : n ≤ b') :
    Agree n (readTerm b operand) (readTerm b' operand') :=
  (agree_leftGrouped (agree_leftGrouped h hb hb') hb hb').bind fun _ => .refl n _

theorem agree_readDisjunction (h : Agree n operand operand') (hb : n ≤ b) (hb' : n ≤ b') :
    Agree n (readDisjunction b operand) (readDisjunction b' operand') :=
  have hterm := agree_readTerm h hb hb'
  agree_leftGrouped (agree_leftGrouped (agree_leftGrouped (agree_leftGrouped hterm hb hb') hb hb') hb hb') hb hb'

theorem agree_readPrimary (h : Agree (n - 1) operand operand') :
    Agree n (readPrimary operand) (readPrimary operand') := by
  refine (Agree.refl n peek).bind fun t => ?_
  cases literalOf? t with
  | some value => exact .refl n _
  | none =>
    dsimp only
    split
    · exact .refl n _
    · exact agree_skip (h.bind fun _ => .refl _ _)
    · exact .refl n _

theorem readUnary_nil (b : Nat) : (readUnary b).run [] = .stuck ⟨.expectedExpression, .nowhere⟩ [] [] := by
  cases b <;> rfl

theorem readWithin_nil (b : Nat) : (readWithin b).run [] = .stuck ⟨.expectedExpression, .nowhere⟩ [] [] := by
  cases b with
  | zero => rfl
  | succ b => simp only [readWithin, readDisjunction, leftGrouped, readTerm, run_bind, readUnary_nil]

theorem agree_readUnary_zero (b b' : Nat) : Agree 0 (readUnary b) (readUnary b') :=
  agree_zero (by rw [readUnary_nil, readUnary_nil])

theorem agree_readWithin_zero (b b' : Nat) : Agree 0 (readWithin b) (readWithin b') :=
  agree_zero (by rw [readWithin_nil, readWithin_nil])

/-- By induction on the budget: an operand in parentheses is read within two
steps less, and its parentheses are tokens of their own. -/
theorem agree_readers (b : Nat) : ∀ b' n,
    (2 * n ≤ b + 1 → 2 * n ≤ b' + 1 → Agree n (readUnary b) (readUnary b')) ∧
      (2 * n ≤ b → 2 * n ≤ b' → Agree n (readWithin b) (readWithin b')) := by
  induction b with
  | zero =>
    intro b' n
    refine ⟨fun hb _ => ?_, fun hb _ => ?_⟩ <;> obtain rfl : n = 0 := by omega
    · exact agree_readUnary_zero 0 b'
    · exact agree_readWithin_zero 0 b'
  | succ b ih =>
    intro b' n
    cases b' with
    | zero =>
      refine ⟨fun _ hb' => ?_, fun _ hb' => ?_⟩ <;> obtain rfl : n = 0 := by omega
      · exact agree_readUnary_zero (b + 1) 0
      · exact agree_readWithin_zero (b + 1) 0
    | succ b' =>
      refine ⟨fun hb hb' => ?_, fun hb hb' => ?_⟩
      · rw [readUnary, readUnary]
        refine agree_take? (agree_readPrimary ((ih b' (n - 1)).2 (by omega) (by omega))) fun operator m hm => ?_
        exact ((ih b' m).1 (by omega) (by omega)).bind fun right => .refl m _
      · rw [readWithin, readWithin]
        refine (agree_readDisjunction ((ih b' n).1 hb hb') (by omega) (by omega)).bind fun left => ?_
        refine agree_take? (.refl n _) fun sign m hm => ?_
        exact ((ih b' m).2 (by omega) (by omega)).bind fun value => .refl m _

theorem agree_readWithin (hb : 2 * n ≤ b) (hb' : 2 * n ≤ b') : Agree n (readWithin b) (readWithin b') :=
  (agree_readers b b' n).2 hb hb'

theorem consumes_readPrimary (nested : TokenReader Expr) : Consumes (readPrimary nested) := by
  intro ts e rest noted h
  cases ts with
  | nil => cases h
  | cons t ts =>
    rw [readPrimary, run_peek, List.headD_cons] at h
    refine Nat.lt_succ_of_le ?_
    split at h
    · rw [run_skip] at h
      exact length_le_of_run h
    · split at h
      · rw [run_skip] at h
        exact length_le_of_run h
      · rw [run_skip] at h
        exact length_le_of_run h
      · cases h

theorem consumes_readUnary (b : Nat) : Consumes (readUnary b) := by
  cases b with
  | zero => exact fun _ _ _ _ h => nomatch h
  | succ b =>
    rw [readUnary]
    exact consumes_take? (consumes_readPrimary _)

theorem consumes_readWithin (b : Nat) : Consumes (readWithin b) := by
  cases b with
  | zero => exact fun _ _ _ _ h => nomatch h
  | succ b =>
    -- the first thing a term takes is a unary operand
    have hterm : Consumes (readTerm b (readUnary b)) := (((consumes_readUnary b).bind _).bind _).bind _
    rw [readWithin]
    exact ((((hterm.bind _).bind _).bind _).bind _).bind _

end Expr

/-! ## Statements -/

namespace Stmt

variable {n b b' : Nat} {expression expression' : TokenReader Expr} {statement statement' : TokenReader Stmt}

theorem agree_readCondition (h : Agree n expression expression') :
    Agree n (readCondition expression) (readCondition expression') :=
  agree_expect fun _ _ hm => (h.mono (Nat.le_of_lt hm)).bind fun _ => .refl _ _

theorem agree_readInitializer (declared : DataType) (h : Agree n expression expression') :
    Agree n (readInitializer declared expression) (readInitializer declared expression') := by
  refine agree_take? (.refl n _) fun _ m hm => ?_
  exact (Agree.refl m peek).bind fun _ => (h.mono (Nat.le_of_lt hm)).bind fun _ => .refl m _

theorem agree_readDeclared (declared : DataType) (single : Bool) (b : Nat) : ∀ {b' n : Nat} (seen : List Text),
    Agree n expression expression' → n + 1 ≤ b → n + 1 ≤ b' →
      Agree n (readDeclared declared single expression b seen) (readDeclared declared single expression' b' seen) := by
  induction b with
  | zero =>
    intro _ _ _ _ hb
    exact absurd hb (Nat.not_succ_le_zero _)
  | succ b ih =>
    intro b' n seen h hb hb'
    obtain ⟨b', rfl⟩ : ∃ k, b' = k + 1 := ⟨b' - 1, by omega⟩
    refine agree_expect fun name m hm => ?_
    have hx := h.mono (Nat.le_of_lt hm)
    refine agree_noting fun _ => (agree_readInitializer declared hx).bind fun initial => ?_
    split
    · exact .refl m _
    · refine agree_take? (.refl m _) fun _ k hk => ?_
      exact (ih _ (hx.mono (Nat.le_of_lt hk)) (by omega) (by omega)).bind fun more => .refl k _

theorem agree_readDeclaration (keyword : Token) (single : Bool) (h : Agree n expression expression') (hb : n ≤ b)
    (hb' : n ≤ b') :
    Agree n (readDeclaration keyword single b expression) (readDeclaration keyword single b' expression') := by
  intro ts hts
  rw [readDeclaration, readDeclaration, run_peek, run_peek]
  cases ts with
  | nil => rfl
  | cons t ts =>
    rw [List.headD_cons]
    split
    · rfl
    · next declared _ =>
      rw [run_skip, run_skip]
      rw [List.length_cons] at hts
      have hx := h.mono (Nat.le_of_lt hts)
      exact ((agree_readDeclared declared single b [] hx (by omega) (by omega)).bind fun _ => .refl _ _) ts
        (Nat.le_refl _)

theorem agree_readNames (b : Nat) : ∀ {b' n : Nat}, n + 1 ≤ b → n + 1 ≤ b' → Agree n (readNames b) (readNames b') := by
  induction b with
  | zero =>
    intro _ _ hb
    exact absurd hb (Nat.not_succ_le_zero _)
  | succ b ih =>
    intro b' n hb hb'
    obtain ⟨b', rfl⟩ : ∃ k, b' = k + 1 := ⟨b' - 1, by omega⟩
    refine agree_expect fun name m hm => agree_take? (.refl m _) fun _ k hk => ?_
    exact (ih (by omega) (by omega)).bind fun more => .refl k _

theorem readAlternatives_nil (b : Nat) : (readAlternatives expression statement b).run [] = .read [] [] [] := by
  cases b <;> rfl

theorem agree_readAlternatives (n : Nat) : ∀ {b b' : Nat}, Agree n expression expression' →
    Agree n statement statement' → n ≤ b → n ≤ b' →
      Agree n (readAlternatives expression statement b) (readAlternatives expression' statement' b') := by
  induction n using Nat.strongRecOn with
  | ind n ih =>
    intro b b' hx hs hb hb'
    cases n with
    | zero => exact agree_zero (by rw [readAlternatives_nil, readAlternatives_nil])
    | succ n =>
      obtain ⟨b, rfl⟩ : ∃ k, b = k + 1 := ⟨b - 1, by omega⟩
      obtain ⟨b', rfl⟩ : ∃ k, b' = k + 1 := ⟨b' - 1, by omega⟩
      refine agree_takePast? (.refl _ _) fun _ m hm => ?_
      have hxm := hx.mono (Nat.le_of_lt hm)
      have hsm := hs.mono (Nat.le_of_lt hm)
      refine (agree_readCondition hxm).bind fun condition => hsm.bind fun inner => ?_
      exact (ih m hm hxm hsm (by omega) (by omega)).bind fun more => .refl m _

theorem agree_readOtherwise (h : Agree n statement statement') :
    Agree n (readOtherwise statement) (readOtherwise statement') :=
  agree_takePast? (.refl n _) fun _ _ hm => (h.mono (Nat.le_of_lt hm)).bind fun _ => .refl _ _

/-- A round of a loop over statements takes a token, also if no statement could
be read, so the rest of the loop has fewer tokens to agree on. -/
theorem agree_round (hc : Consumes statement) (hs : Agree n statement statement')
    {others others' : TokenReader (List Stmt)} (ho : ∀ m < n, Agree m others others') {ts : List Token}
    (hts : ts.length ≤ n) (he : endsBlock (nextKind ts) = false) :
    (orResume statement >>= fun read => others >>= fun more => pure (read.toList ++ more)).run ts =
      (orResume statement' >>= fun read => others' >>= fun more => pure (read.toList ++ more)).run ts := by
  refine run_bind_congr (hs.orResume ts hts) fun read rest noted hr => ?_
  have hlt := hc.orResume he hr
  exact ((ho rest.length (by omega)).bind fun more => .refl _ _) rest (Nat.le_refl _)

theorem readItems_nil (b : Nat) : (readItems statement b).run [] = .read [] [] [] := by
  cases b <;> rfl

theorem agree_readItems (hc : Consumes statement) (n : Nat) : ∀ {b b' : Nat}, Agree n statement statement' →
    n ≤ b → n ≤ b' → Agree n (readItems statement b) (readItems statement' b') := by
  induction n using Nat.strongRecOn with
  | ind n ih =>
    intro b b' hs hb hb' ts hts
    cases ts with
    | nil => rw [readItems_nil, readItems_nil]
    | cons t ts =>
      rw [List.length_cons] at hts
      obtain ⟨b, rfl⟩ : ∃ k, b = k + 1 := ⟨b - 1, by omega⟩
      obtain ⟨b', rfl⟩ : ∃ k, b' = k + 1 := ⟨b' - 1, by omega⟩
      rw [readItems, readItems, run_peek, run_peek, List.headD_cons]
      dsimp only
      split
      · rfl
      · next he =>
        split
        · rw [run_skip, run_skip]
          exact ih ts.length hts (hs.mono (Nat.le_of_lt hts)) (by omega) (by omega) ts (Nat.le_refl _)
        · refine agree_round hc hs (fun m hm => ?_) hts (by simpa using he)
          exact ih m hm (hs.mono (Nat.le_of_lt hm)) (by omega) (by omega)

theorem agree_readBlock (hc : Consumes statement) (hs : Agree n statement statement') (hb : n ≤ b) (hb' : n ≤ b') :
    Agree n (readBlock b statement) (readBlock b' statement') := by
  refine agree_expect fun _ m hm => ?_
  exact (agree_readItems hc m (hs.mono (Nat.le_of_lt hm)) (by omega) (by omega)).bind fun body => .refl m _

theorem agree_readStart (h : Agree n expression expression') (hb : n ≤ b) (hb' : n ≤ b') :
    Agree n (readStart b expression) (readStart b' expression') := by
  refine agree_take? ((Agree.refl n peek).bind fun t => ?_) fun keyword m hm => ?_
  · split
    · exact .refl n _
    · exact h.bind fun e => .refl n _
  · have hx := h.mono (Nat.le_of_lt hm)
    exact (agree_readDeclaration keyword true hx (by omega) (by omega)).bind fun _ => .refl m _

theorem agree_readUnless (kind : Kind) (h : Agree n expression expression') :
    Agree n (readUnless kind expression) (readUnless kind expression') := by
  refine (Agree.refl n peek).bind fun t => ?_
  split
  · exact .refl n _
  · exact h.bind fun e => .refl n _

theorem agree_readCountedLoop (keyword : Token) (h : Agree n expression expression')
    (hs : Agree n statement statement') (hb : n ≤ b) (hb' : n ≤ b') :
    Agree n (readCountedLoop keyword b expression statement) (readCountedLoop keyword b' expression' statement') := by
  refine (Agree.refl n _).bind fun _ => (agree_readStart h hb hb').bind fun start => ?_
  refine (Agree.refl n _).bind fun _ => (agree_readUnless .comma h).bind fun condition => ?_
  refine (Agree.refl n _).bind fun _ => (agree_readUnless .rightParen h).bind fun increment => ?_
  exact (Agree.refl n _).bind fun _ => hs.bind fun inner => .refl n _

theorem agree_readBody (h : Agree n statement statement') : Agree n (readBody statement) (readBody statement') :=
  (Agree.refl n _).bind fun _ => h

theorem agree_readKeyword (loops : Nat) (keyword : Token) {inLoop inLoop' : TokenReader Stmt}
    (hx : Agree n expression expression') (hs : Agree n statement statement') (hl : Agree n inLoop inLoop')
    (hc : Consumes statement) (hb : n + 1 ≤ b) (hb' : n + 1 ≤ b') :
    Agree n (readKeyword loops b expression statement inLoop keyword)
      (readKeyword loops b' expression' statement' inLoop' keyword) := by
  unfold readKeyword
  split
  · exact (agree_readDeclaration keyword false hx (by omega) (by omega)).bind fun _ => .refl n _
  · exact (Agree.refl n _).bind fun _ => hx.bind fun _ => .refl n _
  · exact (Agree.refl n _).bind fun _ => (agree_readNames b hb hb').bind fun _ => .refl n _
  · refine (agree_readCondition hx).bind fun _ => (agree_readBody hs).bind fun _ => ?_
    refine (agree_readAlternatives n hx (agree_readBody hs) (by omega) (by omega)).bind fun _ => ?_
    exact (agree_readOtherwise (agree_readBody hs)).bind fun _ => .refl n _
  · exact (agree_readCondition hx).bind fun _ => (agree_readBody hl).bind fun _ => .refl n _
  · refine (agree_readBody hl).bind fun _ => (Agree.refl n _).bind fun _ => (Agree.refl n _).bind fun _ => ?_
    exact (agree_readCondition hx).bind fun _ => .refl n _
  · exact agree_readCountedLoop keyword hx (agree_readBody hl) (by omega) (by omega)
  · exact .refl n _
  · exact .refl n _
  · exact (agree_readBlock hc hs (by omega) (by omega)).bind fun _ => .refl n _

theorem consumes_readWithin (b loops : Nat) : Consumes (readWithin b loops) := by
  cases b with
  | zero => exact fun _ _ _ _ h => nomatch h
  | succ b =>
    rw [readWithin]
    exact consumes_take? ((Expr.consumes_readWithin b).bind _)

/-- By induction on the budget, which the bodies of a statement share. -/
theorem agree_readWithin (b : Nat) : ∀ {b' n : Nat} (loops : Nat), 2 * n < b → 2 * n < b' →
    Agree n (readWithin b loops) (readWithin b' loops) := by
  induction b with
  | zero =>
    intro _ _ _ hb
    exact absurd hb (Nat.not_lt_zero _)
  | succ b ih =>
    intro b' n loops hb hb'
    obtain ⟨b', rfl⟩ : ∃ k, b' = k + 1 := ⟨b' - 1, by omega⟩
    rw [readWithin, readWithin]
    refine agree_take? ?_ fun keyword m hm => ?_
    · exact (Expr.agree_readWithin (by omega) (by omega)).bind fun _ => .refl n _
    · have hx : Agree m (Expr.readWithin b) (Expr.readWithin b') := Expr.agree_readWithin (by omega) (by omega)
      have hs : ∀ loops, Agree m (readWithin b loops) (readWithin b' loops) :=
        fun loops => ih loops (by omega) (by omega)
      exact agree_readKeyword loops keyword hx (hs loops) (hs (loops + 1)) (consumes_readWithin b loops) (by omega)
        (by omega)

end Stmt

/-! ## Programs -/

namespace ReadProgram

variable {n b b' : Nat} {statement statement' : TokenReader Stmt}

theorem readTop_nil (b : Nat) : (readTop statement b).run [] = .read [] [] [] := by
  cases b <;> rfl

theorem agree_readTop (hc : Consumes statement) (n : Nat) : ∀ {b b' : Nat}, Agree n statement statement' →
    n ≤ b → n ≤ b' → Agree n (readTop statement b) (readTop statement' b') := by
  induction n using Nat.strongRecOn with
  | ind n ih =>
    intro b b' hs hb hb' ts hts
    cases ts with
    | nil => rw [readTop_nil, readTop_nil]
    | cons t ts =>
      have hlt : ts.length < n := hts
      obtain ⟨b, rfl⟩ : ∃ k, b = k + 1 := ⟨b - 1, by omega⟩
      obtain ⟨b', rfl⟩ : ∃ k, b' = k + 1 := ⟨b' - 1, by omega⟩
      have hrest : (readTop statement b).run ts = (readTop statement' b').run ts :=
        ih ts.length hlt (hs.mono (Nat.le_of_lt hlt)) (by omega) (by omega) ts (Nat.le_refl _)
      rw [readTop, readTop, run_peek, run_peek, List.headD_cons]
      split
      · rfl
      · split
        · rw [run_skip, run_skip]
          exact hrest
        · split
          · refine run_bind_congr rfl fun _ rest noted hr => ?_
            obtain ⟨-, rfl, -⟩ := Reading.read.inj hr
            rw [run_skip, run_skip]
            exact hrest
          · next hk _ hbrace =>
            have he := endsBlock_eq_false.2 ⟨fun h => hk (.inr h), hbrace, fun h => hk (.inl h)⟩
            refine Stmt.agree_round hc hs (fun m hm => ?_) hts he
            exact ih m hm (hs.mono (Nat.le_of_lt hm)) (by omega) (by omega)

theorem agree_readAll (hb : 2 * n < b) (hb' : 2 * n < b') : Agree n (readAll b) (readAll b') := by
  have hs : Agree n (Stmt.readWithin b 0) (Stmt.readWithin b' 0) := Stmt.agree_readWithin b 0 hb hb'
  have htop : Agree n (readTop (Stmt.readWithin b 0) b) (readTop (Stmt.readWithin b' 0) b') :=
    agree_readTop (Stmt.consumes_readWithin b 0) n hs (by omega) (by omega)
  refine (Agree.refl n _).bind fun _ => (Agree.refl n _).bind fun o => ?_
  cases o with
  | none => exact (Agree.refl n _).bind fun _ => (Agree.refl n _).bind fun _ => htop.bind fun _ => .refl n _
  | some _ => exact htop.bind fun _ => .refl n _

end ReadProgram

end BisayaPlus
