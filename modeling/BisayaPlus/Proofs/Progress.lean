import BisayaPlus.Proofs.ProgramWalk
import BisayaPlus.Proofs.SweptSource
/-!
# Scanning and reading get on

Scanning takes a byte in every step and none behind the end of the source, and
the sweep over its bytes is never lost. The walk over the tokens of a program is
never lost either: its two loops, over the statements of a program and of a
block, take a token in every round, also in one that drops its statement. So the
walk ends, inside the tokens, with what the readers give and with no loop around
it.
-/

set_option autoImplicit false

namespace BisayaPlus

open TokenReader Grammar

namespace Walk

/-! ## Rounds -/

/-- What a round in a block reads. -/
def readBlockRound (reader : TokenReader Stmt) : TokenReader (Option Stmt) := do
  match ← take? (· == .newline) with
  | some _ => pure none
  | none => orResume reader

/-- What a round in a program reads. -/
def readTopRound (reader : TokenReader Stmt) : TokenReader (Option Stmt) := do
  match ← take? (· == .newline) with
  | some _ => pure none
  | none => do
    let t ← TokenReader.peek
    if t.kind = .rightBrace then do
      TokenReader.note .unexpectedBrace t
      skip
      pure none
    else orResume reader

section Rounds

variable {n loops bound look : Nat} {stmt : Walk Stmt} {reader : TokenReader Stmt} {ts rest : List Token} {t : Token}

theorem run_take?_some {β : Type} {wanted : Kind → Bool} (f : Option Token → TokenReader β)
    (hw : wanted t.kind = true) : (take? wanted >>= f).run (t :: rest) = (f (some t)).run rest := by
  simp only [TokenReader.run_bind, take?, hw, if_true, Reading.after_nil]

theorem run_take?_none {β : Type} {wanted : Kind → Bool} (f : Option Token → TokenReader β)
    (hw : wanted t.kind = false) : (take? wanted >>= f).run (t :: rest) = (f none).run (t :: rest) := by
  simp only [TokenReader.run_bind, take?, hw, Bool.false_eq_true, if_false, Reading.after_nil]

theorem run_bind_pure {α : Type} (r : TokenReader α) (ts : List Token) : (r >>= pure).run ts = r.run ts := by
  rw [TokenReader.run_bind]
  cases r.run ts <;> simp [TokenReader.run_pure, Reading.after]

theorem run_readItems_stop (hk : endsBlock t.kind = true) :
    (Stmt.readItems reader (bound + 1)).run (t :: rest) = .read [] (t :: rest) [] := by
  rw [Stmt.readItems, TokenReader.run_peek, List.headD_cons]
  dsimp only
  rw [hk]
  rfl

theorem run_readItems (hk : endsBlock t.kind = false) :
    (Stmt.readItems reader (bound + 1)).run (t :: rest) =
      (readBlockRound reader >>= fun read => Stmt.readItems reader bound >>= fun more =>
        pure (read.toList ++ more)).run (t :: rest) := by
  rw [Stmt.readItems, TokenReader.run_peek, List.headD_cons]
  dsimp only
  rw [hk, if_neg Bool.false_ne_true]
  by_cases hnewline : t.kind = .newline
  · have hround : (readBlockRound reader).run (t :: rest) = .read none rest [] := by
      rw [readBlockRound, run_take?_some _ (by simpa using hnewline)]
      rfl
    rw [if_pos hnewline, run_skip, TokenReader.run_bind, hround]
    exact ((Reading.after_nil _).trans (run_bind_pure _ _)).symm
  · have hround : (readBlockRound reader).run (t :: rest) = (orResume reader).run (t :: rest) := by
      rw [readBlockRound, run_take?_none _ (by simpa using hnewline)]
    rw [if_neg hnewline, TokenReader.run_bind, TokenReader.run_bind, hround]

theorem endsTop_iff {kind : Kind} : endsTop kind = true ↔ kind = .eof ∨ kind = .katapusan := by
  simp [endsTop]

theorem endsTop_eq_false {kind : Kind} : endsTop kind = false ↔ ¬ (kind = .eof ∨ kind = .katapusan) := by
  rw [← endsTop_iff, Bool.not_eq_true]

theorem run_readTop_stop (hk : endsTop t.kind = true) :
    (ReadProgram.readTop reader (bound + 1)).run (t :: rest) = .read [] (t :: rest) [] := by
  rw [ReadProgram.readTop, TokenReader.run_peek, List.headD_cons, if_pos (endsTop_iff.1 hk)]
  rfl

theorem run_readTop (hk : endsTop t.kind = false) :
    (ReadProgram.readTop reader (bound + 1)).run (t :: rest) =
      (readTopRound reader >>= fun read => ReadProgram.readTop reader bound >>= fun more =>
        pure (read.toList ++ more)).run (t :: rest) := by
  rw [ReadProgram.readTop, TokenReader.run_peek, List.headD_cons, if_neg (endsTop_eq_false.1 hk)]
  by_cases hnewline : t.kind = .newline
  · have hround : (readTopRound reader).run (t :: rest) = .read none rest [] := by
      rw [readTopRound, run_take?_some _ (by simpa using hnewline)]
      rfl
    rw [if_pos hnewline, run_skip, TokenReader.run_bind, hround]
    exact ((Reading.after_nil _).trans (run_bind_pure _ _)).symm
  · rw [if_neg hnewline, TokenReader.run_bind, readTopRound, run_take?_none _ (by simpa using hnewline)]
    rw [TokenReader.run_peek, List.headD_cons]
    by_cases hbrace : t.kind = .rightBrace
    · have hround : (TokenReader.note .unexpectedBrace t >>= fun _ => skip >>= fun _ =>
          (pure none : TokenReader (Option Stmt))).run (t :: rest) = .read none rest [⟨.unexpectedBrace, t⟩] := rfl
      rw [if_pos hbrace, if_pos hbrace, hround, TokenReader.run_bind]
      exact congrArg (Reading.after _) ((run_skip _ _).trans (run_bind_pure _ _).symm)
    · rw [if_neg hbrace, if_neg hbrace, TokenReader.run_bind]

/-- Rounds that pass newlines differ in what they do at other tokens. -/
theorem followsOn_round {x : Walk (Option Stmt)} {r : TokenReader (Option Stmt)} (he : EndsOnce (t :: rest))
    (h : FollowsOn loops x r (t :: rest)) :
    FollowsOn loops (taken? (· == .newline) >>= fun | some _ => pure none | none => x)
      (take? (· == .newline) >>= fun | some _ => pure none | none => r) (t :: rest) := by
  refine (followsOn_taken? (· == .newline) rfl he).bind fun o rest' noted hr hne => ?_
  have hrest := endsOnce_of_run he hr hne
  simp only [take?] at hr
  split at hr <;> obtain ⟨rfl, rfl, -⟩ := Reading.read.inj hr
  · exact follows_pure none _ hrest (Nat.le_refl _)
  · exact h

theorem followsOn_blockRound (h : FollowsOn loops stmt reader (t :: rest)) (he : EndsOnce (t :: rest))
    (hl : (t :: rest).length ≤ look) (hk : t.kind ≠ .eof) :
    FollowsOn loops (blockRound look stmt) (readBlockRound reader) (t :: rest) :=
  followsOn_round he (h.recover he hl hk)

theorem followsOn_topRound (h : FollowsOn loops stmt reader (t :: rest)) (he : EndsOnce (t :: rest))
    (hl : (t :: rest).length ≤ look) (hk : t.kind ≠ .eof) :
    FollowsOn loops (topRound look stmt) (readTopRound reader) (t :: rest) := by
  refine followsOn_round he ?_
  intro tokens place noted hdrop
  rw [run_peek _ hdrop, TokenReader.run_peek, List.headD_cons]
  split
  · rcases he.cons with ⟨heof, -⟩ | ⟨-, hrest⟩
    · exact absurd heof hk
    · rw [run_bind, run_advance hdrop hk (endsOnce_ne_nil hrest)]
      exact .read (endsOnce_ne_nil hrest) (get_of_drop hdrop).2 rfl
  · exact h.recover he hl hk tokens place noted hdrop

/-- A round takes a token, also if its statement is dropped. -/
theorem lt_of_blockRound (hc : Consumes reader) (hk : endsBlock t.kind = false) {read : Option Stmt}
    {left : List Token} {noted : List Complaint}
    (hr : (readBlockRound reader).run (t :: rest) = .read read left noted) : left.length < (t :: rest).length := by
  by_cases hnewline : t.kind = .newline
  · rw [readBlockRound, run_take?_some _ (by simpa using hnewline)] at hr
    exact Nat.lt_succ_of_le (length_le_of_run hr)
  · rw [readBlockRound, run_take?_none _ (by simpa using hnewline)] at hr
    exact hc.orResume hk hr

theorem lt_of_topRound (hc : Consumes reader) (hk : endsTop t.kind = false) {read : Option Stmt}
    {left : List Token} {noted : List Complaint}
    (hr : (readTopRound reader).run (t :: rest) = .read read left noted) : left.length < (t :: rest).length := by
  by_cases hnewline : t.kind = .newline
  · rw [readTopRound, run_take?_some _ (by simpa using hnewline)] at hr
    exact Nat.lt_succ_of_le (length_le_of_run hr)
  · rw [readTopRound, run_take?_none _ (by simpa using hnewline), TokenReader.run_peek, List.headD_cons] at hr
    by_cases hbrace : t.kind = .rightBrace
    · rw [if_pos hbrace] at hr
      obtain ⟨-, rfl, -⟩ := Reading.read.inj hr
      exact Nat.lt_succ_self _
    · rw [if_neg hbrace] at hr
      have hstop := endsTop_eq_false.1 hk
      exact hc.orResume (endsBlock_eq_false.2 ⟨fun h => hstop (.inr h), hbrace, fun h => hstop (.inl h)⟩) hr

/-- Every round takes a token, so the bound is not reached. -/
theorem follows_rounds {stops : Kind → Bool} {round : Walk (Option Stmt)} {readRound : TokenReader (Option Stmt)}
    {loop : Nat → TokenReader (List Stmt)}
    (hstop : ∀ {bound t rest}, stops t.kind = true → (loop (bound + 1)).run (t :: rest) = .read [] (t :: rest) [])
    (hgo : ∀ {bound t rest}, stops t.kind = false → (loop (bound + 1)).run (t :: rest) =
      (readRound >>= fun read => loop bound >>= fun more => pure (read.toList ++ more)).run (t :: rest))
    (hlt : ∀ {t rest read left noted}, stops t.kind = false → readRound.run (t :: rest) = .read read left noted →
      left.length < (t :: rest).length) (bound : Nat) : ∀ {n : Nat}, n ≤ bound →
      (∀ t rest, EndsOnce (t :: rest) → (t :: rest).length ≤ n → stops t.kind = false →
        FollowsOn loops round readRound (t :: rest)) →
      Follows n loops (rounds stops round bound) (loop bound) := by
  induction bound with
  | zero =>
    intro n hn _
    obtain rfl := Nat.le_zero.1 hn
    exact follows_zero _ _
  | succ bound ih =>
    intro n hn h ts he hts tokens place noted hdrop
    cases ts with
    | nil => exact absurd rfl (endsOnce_ne_nil he)
    | cons t rest =>
      rw [rounds, run_peek _ hdrop]
      cases hk : stops t.kind with
      | true =>
        rw [hstop hk]
        exact .read (List.cons_ne_nil _ _) hdrop (List.append_nil _).symm
      | false =>
        have hmoves := (h t rest he hts hk).onward fun _ _ _ hr => hlt hk hr
        rw [hgo hk]
        refine hmoves.bind (fun read left new hr hne => ?_) tokens place noted hdrop
        -- the other rounds start with fewer tokens, for which a lower bound is enough
        have hleft := hlt hk hr
        refine ((ih ?_ fun t' rest' he' hle => h t' rest' he' (Nat.le_trans hle ?_)).bind fun more =>
          follows_pure _) left (endsOnce_of_run he hr hne) (Nat.le_refl _)
        · omega
        · omega

theorem follows_block (hc : Consumes reader) (h : Follows n loops stmt reader) (hn : n ≤ bound) :
    Follows n loops (block bound stmt) (Stmt.readBlock bound reader) := by
  refine follows_consume (by decide) fun _ _ m hm => ?_
  have hitems : Follows m loops (rounds endsBlock (blockRound bound stmt) bound) (Stmt.readItems reader bound) := by
    refine follows_rounds run_readItems_stop run_readItems (fun hk hr => lt_of_blockRound hc hk hr) bound (by omega) ?_
    intro t rest he hts hk
    have hts' : (t :: rest).length ≤ n := by omega
    exact followsOn_blockRound (h _ he hts') he (by omega) (endsBlock_eq_false.1 hk).2.2
  exact hitems.bind fun body => follows_consume (by decide) fun _ _ k _ => follows_pure body

end Rounds

/-! ## Statements and programs -/

section Programs

variable {n loops bound look : Nat} {expr : Walk Expr} {exprReader : TokenReader Expr} {stmt : Walk Stmt}
  {reader : TokenReader Stmt}

theorem follows_start (h : Follows n loops expr exprReader) (hn : n ≤ bound) :
    Follows n loops (start bound expr) (Stmt.readStart bound exprReader) := by
  refine follows_taken? (· == .mugna) rfl ?_ fun keyword _ m hm => ?_
  · refine follows_peek fun t rest he hts => ?_
    split
    · exact follows_pure _ _ he hts
    · exact (h.bind fun e => follows_pure _) _ he hts
  · have hx := h.mono (Nat.le_of_lt hm)
    exact (follows_declaration keyword true hx (by omega)).bind fun _ => follows_pure _

theorem follows_unlessNext (kind : Kind) (h : Follows n loops expr exprReader) :
    Follows n loops (unlessNext kind expr) (Stmt.readUnless kind exprReader) := by
  refine follows_peek fun t rest he hts => ?_
  split
  · exact follows_pure _ _ he hts
  · exact (h.bind fun e => follows_pure _) _ he hts

theorem follows_body (h : Follows n loops stmt reader) (hn : n ≤ bound) :
    Follows n loops (body bound stmt) (Stmt.readBody reader) :=
  (follows_skipNewlines bound hn).bind fun _ => h

/-- The header is outside the loop and the body inside. -/
theorem follows_countedLoop (keyword : Token) (h : Follows n loops expr exprReader)
    (hl : Follows n (loops + 1) stmt reader) (hn : n ≤ bound) :
    Follows n loops (countedLoop keyword bound expr stmt)
      (Stmt.readCountedLoop keyword bound exprReader (Stmt.readBody reader)) := by
  refine (follows_expected (by decide)).bind fun _ => (follows_start h hn).bind fun start => ?_
  refine (follows_expected (by decide)).bind fun _ => (follows_unlessNext .comma h).bind fun condition => ?_
  refine (follows_expected (by decide)).bind fun _ => (follows_unlessNext .rightParen h).bind fun increment => ?_
  refine (follows_expected (by decide)).bind fun _ => ?_
  exact ((follows_body hl hn).bind fun inner => follows_pure _).aroundLoop

/-- The cursor counts the loops that the reader was told. -/
theorem follows_jump (keyword : Token) (s : Stmt) :
    Follows n loops (jump keyword s) (Stmt.readJump loops keyword s) := by
  intro ts he hts tokens place noted hdrop
  have hcounted : (jump keyword s).run tokens ⟨place, loops, noted⟩ =
      (if loops = 0 then fatal .outsideLoop keyword else endStatement >>= fun _ => pure s : Walk Stmt).run tokens
        ⟨place, loops, noted⟩ := rfl
  rw [hcounted, Stmt.readJump]
  split
  · exact follows_fatal _ _ ts he hts tokens place noted hdrop
  · exact (follows_endStatement.bind fun _ => follows_pure s) ts he hts tokens place noted hdrop

theorem follows_afterKeyword (keyword : Token) {inLoop : TokenReader Stmt}
    (hx : ∀ loops, Follows n loops expr exprReader) (hs : Follows n loops stmt reader)
    (hl : Follows n (loops + 1) stmt inLoop) (hc : Consumes reader) (hn : n ≤ bound) :
    Follows n loops (afterKeyword bound expr stmt keyword)
      (Stmt.readKeyword loops bound exprReader reader inLoop keyword) := by
  have hbody := follows_body hs hn
  have hend : ∀ {loops} (s : Stmt), Follows n loops (endStatement >>= fun _ => pure s)
      (Stmt.endStatement >>= fun _ => pure s) := fun s => follows_endStatement.bind fun _ => follows_pure s
  unfold afterKeyword Stmt.readKeyword
  cases keyword.kind with
  | mugna => exact (follows_declaration keyword false (hx loops) hn).bind fun _ => hend _
  | ipakita => exact (follows_expected (by decide)).bind fun _ => (hx loops).bind fun e => hend _
  | dawat => exact (follows_expected (by decide)).bind fun _ => (follows_names bound hn).bind fun names => hend _
  | kung =>
    refine (follows_condition (hx loops)).bind fun condition => hbody.bind fun first => ?_
    refine (follows_alternatives bound (hx loops) hbody hn hn).bind fun alternatives => ?_
    exact (follows_otherwise hbody hn).bind fun otherwise => follows_pure _
  | mintras =>
    refine (follows_condition (hx loops)).bind fun condition => ?_
    exact ((follows_body hl hn).bind fun inner => follows_pure _).aroundLoop
  | buhata =>
    -- the condition of this loop is still counted as inside it
    refine Follows.aroundLoop ((follows_body hl hn).bind fun inner => ?_)
    refine (follows_skipNewlines bound hn).bind fun _ => (follows_expected (by decide)).bind fun _ => ?_
    exact (follows_condition (hx (loops + 1))).bind fun condition => hend _
  | alangSa => exact follows_countedLoop keyword (hx loops) hl hn
  | hunong => exact follows_jump keyword _
  | padayon => exact follows_jump keyword _
  | _ => exact (follows_block hc hs hn).bind fun body => follows_pure _

/-- By induction on the budget. The reader is told of the loops around it, and
the cursor has counted them. -/
theorem follows_statement (b : Nat) : ∀ {n : Nat} (loops : Nat), 2 * n + 1 < b →
    Follows n loops (statement b) (Stmt.readWithin b loops) := by
  induction b with
  | zero =>
    intro n loops hb
    exact absurd hb (Nat.not_lt_zero _)
  | succ b ih =>
    intro n loops hb
    rw [statement, Stmt.readWithin]
    refine follows_taken? startsStatement rfl ?_ fun keyword _ m hm => ?_
    · refine (follows_expression loops (by omega)).bind fun e => ?_
      exact follows_endStatement.bind fun _ => follows_pure _
    · exact follows_afterKeyword keyword (fun loops => follows_expression loops (by omega)) (ih loops (by omega))
        (ih (loops + 1) (by omega)) (Stmt.consumes_readWithin b loops) (by omega)

theorem follows_ending (hn : n ≤ look) : Follows n loops (ending look) ReadProgram.readEnd := by
  refine follows_taken? (· == .katapusan) rfl ?_ fun _ _ m hm => ?_
  · refine follows_peek fun t rest he hts => ?_
    exact ((follows_note _ t).bind fun _ => follows_pure _) _ he hts
  · refine (follows_skipNewlines look (by omega)).bind fun _ => follows_peek fun t rest he hts => ?_
    exact follows_noting (fun _ => follows_pure _) _ he hts

variable {budget : Nat}

theorem follows_program (hb : 2 * n + 1 < budget) :
    Follows n 0 (program budget) (ReadProgram.readAll budget) := by
  have hstatement : Follows n 0 (statement budget) (Stmt.readWithin budget 0) := follows_statement budget 0 hb
  have hc := Stmt.consumes_readWithin budget 0
  have htop : Follows n 0 (rounds endsTop (topRound budget (statement budget)) budget)
      (ReadProgram.readTop (Stmt.readWithin budget 0) budget) := by
    refine follows_rounds run_readTop_stop run_readTop (fun hk hr => lt_of_topRound hc hk hr) budget (by omega) ?_
    intro t rest he hts hk
    exact followsOn_topRound (hstatement _ he hts) he (by omega) fun h => endsTop_eq_false.1 hk (.inl h)
  have hrest : Follows n 0
      (rounds endsTop (topRound budget (statement budget)) budget >>= fun statements =>
        ending budget >>= fun ended => pure (statements, ended))
      (ReadProgram.readTop (Stmt.readWithin budget 0) budget >>= fun statements =>
        ReadProgram.readEnd >>= fun ended => pure (statements, ended)) :=
    htop.bind fun statements => (follows_ending (by omega)).bind fun ended => follows_pure _
  refine (follows_skipNewlines budget (by omega)).bind fun _ => ?_
  refine follows_taken? (· == .sugod) rfl ?_ fun _ _ m hm => hrest.mono (Nat.le_of_lt hm)
  refine follows_peek fun t rest he hts => ?_
  exact ((follows_note _ t).bind fun _ => hrest) _ he hts

end Programs

/-! ## What the walk gives -/

section Results

variable {α β : Type} {x : Walk α} {r : TokenReader α} {tokens ts rest : List Token} {a : α} {new : List Complaint}
  {place loops budget : Nat} {c : Cursor}

theorem FollowsOn.run_eq (h : FollowsOn loops x r ts) (noted : List Complaint) (hdrop : tokens.drop place = ts)
    (hr : r.run ts = .read a rest new) : ∃ place', x.run tokens ⟨place, loops, noted⟩ =
      .done a ⟨place', loops, noted ++ new⟩ ∧ tokens.drop place' = rest ∧ place' < tokens.length := by
  have hx := h tokens place noted hdrop
  rw [hr] at hx
  generalize x.run tokens ⟨place, loops, noted⟩ = walked at hx
  cases hx with
  | @read _ _ _ _ place' hne hrest hafter => exact ⟨place', by rw [hafter], hrest, lt_length_of_drop hrest hne⟩

/-- The reader always gives a value. -/
def Settles (r : TokenReader α) : Prop := ∀ ts, ∃ a rest noted, r.run ts = .read a rest noted

theorem Settles.bind {f : α → TokenReader β} (h : Settles r) (hf : ∀ a, Settles (f a)) : Settles (r >>= f) := by
  intro ts
  obtain ⟨a, rest, noted, hr⟩ := h ts
  obtain ⟨b, rest', noted', hr'⟩ := hf a rest
  exact ⟨b, rest', noted ++ noted', by rw [TokenReader.run_bind, hr]; dsimp only; rw [hr']; rfl⟩

theorem settles_pure (a : α) : Settles (pure a : TokenReader α) := fun ts => ⟨a, ts, [], rfl⟩

theorem settles_peek : Settles TokenReader.peek := fun _ => ⟨_, _, _, rfl⟩

theorem settles_skip : Settles skip := fun _ => ⟨_, _, _, rfl⟩

theorem settles_note (fault : SyntaxFault) (t : Token) : Settles (TokenReader.note fault t) := fun _ => ⟨_, _, _, rfl⟩

theorem settles_skipNewlines : Settles TokenReader.skipNewlines := fun _ => ⟨_, _, _, rfl⟩

theorem settles_take? (wanted : Kind → Bool) : Settles (take? wanted) := by
  intro ts
  cases ts with
  | nil => exact ⟨_, _, _, rfl⟩
  | cons t rest =>
    simp only [take?]
    split <;> exact ⟨_, _, _, rfl⟩

theorem settles_orResume (r : TokenReader α) : Settles (orResume r) := by
  intro ts
  rw [run_orResume]
  split <;> exact ⟨_, _, _, rfl⟩

theorem settles_readBlockRound (reader : TokenReader Stmt) : Settles (readBlockRound reader) := by
  refine (settles_take? _).bind fun o => ?_
  cases o with
  | some t => exact settles_pure _
  | none => exact settles_orResume reader

theorem settles_readTopRound (reader : TokenReader Stmt) : Settles (readTopRound reader) := by
  refine (settles_take? _).bind fun o => ?_
  cases o with
  | some t => exact settles_pure _
  | none =>
    refine settles_peek.bind fun t => ?_
    split
    · exact (settles_note _ t).bind fun _ => settles_skip.bind fun _ => settles_pure _
    · exact settles_orResume reader

theorem settles_readTop (reader : TokenReader Stmt) (bound : Nat) : Settles (ReadProgram.readTop reader bound) := by
  induction bound with
  | zero => exact settles_pure _
  | succ bound ih =>
    rw [ReadProgram.readTop]
    refine settles_peek.bind fun t => ?_
    split
    · exact settles_pure _
    · split
      · exact settles_skip.bind fun _ => ih
      · split
        · exact (settles_note _ t).bind fun _ => settles_skip.bind fun _ => ih
        · exact (settles_orResume reader).bind fun read => ih.bind fun more => settles_pure _

theorem settles_readEnd : Settles ReadProgram.readEnd := by
  refine (settles_take? _).bind fun o => ?_
  cases o with
  | none => exact settles_peek.bind fun t => (settles_note _ t).bind fun _ => settles_pure _
  | some _ =>
    refine settles_skipNewlines.bind fun _ => settles_peek.bind fun t => ?_
    split
    · exact (settles_note _ t).bind fun _ => settles_pure _
    · exact settles_pure _

theorem settles_readAll (budget : Nat) : Settles (ReadProgram.readAll budget) := by
  have hrest : Settles (ReadProgram.readTop (Stmt.readWithin budget 0) budget >>= fun statements =>
      ReadProgram.readEnd >>= fun ended => pure (statements, ended)) :=
    (settles_readTop _ budget).bind fun _ => settles_readEnd.bind fun _ => settles_pure _
  refine settles_skipNewlines.bind fun _ => (settles_take? _).bind fun o => ?_
  cases o with
  | none => exact settles_peek.bind fun t => (settles_note _ t).bind fun _ => hrest
  | some _ => exact hrest

/-- The walk over a program is not lost. It stops at one of its tokens, with no
loop around it, and gives what the reader gives. -/
theorem run_program (he : EndsOnce ts) (hb : 2 * ts.length + 1 < budget) : ∃ place < ts.length,
    (program budget).run ts ⟨0, 0, []⟩ =
      .done ((ReadProgram.ofTokens ts).statements, (ReadProgram.ofTokens ts).ended)
        ⟨place, 0, (ReadProgram.ofTokens ts).complaints⟩ := by
  obtain ⟨⟨statements, ended⟩, rest, noted, hr⟩ := settles_readAll (2 * ts.length + 3) ts
  have hagree : (ReadProgram.readAll budget).run ts = .read (statements, ended) rest noted := by
    rw [← hr]
    exact ReadProgram.agree_readAll (by omega) (by omega) ts (Nat.le_refl _)
  have hstart : ts.drop 0 = ts := List.drop_zero
  obtain ⟨place, hrun, -, hlt⟩ := (follows_program hb ts he (Nat.le_refl _)).run_eq [] hstart hagree
  refine ⟨place, hlt, ?_⟩
  rw [hrun, ReadProgram.ofTokens, hr]
  rfl

/-- The walk takes the cursor forward inside the tokens, and leaves every loop
that it entered. -/
def Advances (x : Walk α) (tokens : List Token) (c : Cursor) : Prop :=
  ∃ a c', x.run tokens c = .done a c' ∧ c.place < c'.place ∧ c'.place < tokens.length ∧ c'.loops = c.loops

theorem FollowsOn.advances (h : FollowsOn c.loops x r ts) (hr : Settles r) (hdrop : tokens.drop c.place = ts)
    (hlt : ∀ a rest noted, r.run ts = .read a rest noted → rest.length < ts.length) : x.Advances tokens c := by
  obtain ⟨a, rest, new, hread⟩ := hr ts
  obtain ⟨place', hrun, hrest, hplace⟩ := h.run_eq c.noted hdrop hread
  have hlen := hlt a rest new hread
  rw [← hrest, ← hdrop] at hlen
  exact ⟨a, _, hrun, place_lt_of_drop hlen, hplace, rfl⟩

theorem exists_next (he : EndsOnce tokens) (hk : nextKind (tokens.drop place) ≠ .eof) :
    ∃ t rest, tokens.drop place = t :: rest ∧ EndsOnce (t :: rest) := by
  cases hdrop : tokens.drop place with
  | nil =>
    rw [hdrop] at hk
    exact absurd rfl hk
  | cons t rest =>
    have hsuffix : t :: rest <:+ tokens := hdrop ▸ List.drop_suffix place tokens
    exact ⟨t, rest, rfl, endsOnce_rest he hsuffix (List.cons_ne_nil _ _)⟩

/-- From any token that does not end the program, with any loops counted, the
next round takes the cursor forward. -/
theorem advances_topRound (he : EndsOnce tokens) (hb : 2 * (tokens.drop c.place).length + 1 < budget)
    (hk : endsTop (nextKind (tokens.drop c.place)) = false) :
    (topRound budget (statement budget)).Advances tokens c := by
  have heof : nextKind (tokens.drop c.place) ≠ .eof := fun h => endsTop_eq_false.1 hk (.inl h)
  obtain ⟨t, rest, hdrop, hends⟩ := exists_next he heof
  rw [hdrop] at hb hk heof
  have hstatement := follows_statement budget c.loops hb _ hends (Nat.le_refl _)
  refine (followsOn_topRound hstatement hends (by omega) heof).advances (settles_readTopRound _) hdrop ?_
  exact fun _ _ _ hr => lt_of_topRound (Stmt.consumes_readWithin budget c.loops) hk hr

theorem advances_blockRound (he : EndsOnce tokens) (hb : 2 * (tokens.drop c.place).length + 1 < budget)
    (hk : endsBlock (nextKind (tokens.drop c.place)) = false) :
    (blockRound budget (statement budget)).Advances tokens c := by
  have heof : nextKind (tokens.drop c.place) ≠ .eof := (endsBlock_eq_false.1 hk).2.2
  obtain ⟨t, rest, hdrop, hends⟩ := exists_next he heof
  rw [hdrop] at hb hk heof
  have hstatement := follows_statement budget c.loops hb _ hends (Nat.le_refl _)
  refine (followsOn_blockRound hstatement hends (by omega) heof).advances (settles_readBlockRound _) hdrop ?_
  exact fun _ _ _ hr => lt_of_blockRound (Stmt.consumes_readWithin budget c.loops) hk hr

end Results

end Walk

/-! ## Scanning and reading -/

/-- A statement of a program or of a block is read or dropped, and either way
tokens are taken. -/
theorem Stmt.orResume_takes (budget loops : Nat) {ts : List Token} (hk : endsBlock (nextKind ts) = false) :
    ∃ read rest noted, (orResume (Stmt.readWithin budget loops)).run ts = .read read rest noted ∧
      rest.length < ts.length := by
  obtain ⟨read, rest, noted, hr⟩ := Walk.settles_orResume (Stmt.readWithin budget loops) ts
  exact ⟨read, rest, noted, hr, (Stmt.consumes_readWithin budget loops).orResume hk hr⟩

/-- Every source is scanned to its end in steps of at least one byte, and gets
one end token. All tokens with one end are read to the end in steps of at least
one token, without a look outside them. -/
theorem scan_and_read_in_bounds (source : Text) {ts : List Token} (h : EndsOnce ts) {budget : Nat}
    (hb : 2 * ts.length + 1 < budget) :
    -- the scanner: what a step takes behind its first byte, and the steps one after the other
    ((∀ before b t, (Scan.pieceAt before b t).2 ≤ t.length) ∧
      Scan.Tiles 0 source.length (segments source) ∧ (segments source).flatMap (·.bytes) = source ∧
      ∃ body last, (scan source).tokens = body ++ [last] ∧ last.kind = .eof ∧ last.pos = some source.length ∧
        ∀ t ∈ body, t.kind ≠ .eof) ∧
    -- the sweep in place of the scanner: it is not lost, and each segment moves it, from any state
    ((Sweep.all (source.length + 1)).run source ⟨0, 0, 1, [], []⟩ =
        some (⟨⟩, ⟨source.length, source.length, (scan source).lastLine, (scan source).tokens,
          (scan source).diagnostics⟩) ∧
      ∀ s : Sweep.State, s.current < source.length → ∃ s', (Sweep.segment source.length).run source s = some (⟨⟩, s') ∧
        s.current < s'.current ∧ s'.current ≤ source.length) ∧
    -- the readers: a statement that fails takes a token too
    (∀ b loops rest, endsBlock (nextKind rest) = false → ∃ read left noted,
      (orResume (Stmt.readWithin b loops)).run rest = .read read left noted ∧ left.length < rest.length) ∧
    -- the walk in place of the readers: it is not lost, and each round moves it, at any depth of nesting
    (∃ place < ts.length, (Walk.program budget).run ts ⟨0, 0, []⟩ =
      .done ((ReadProgram.ofTokens ts).statements, (ReadProgram.ofTokens ts).ended)
        ⟨place, 0, (ReadProgram.ofTokens ts).complaints⟩) ∧
    ∀ (b : Nat) (c : Cursor), 2 * (ts.drop c.place).length + 1 < b →
      (Walk.endsTop (nextKind (ts.drop c.place)) = false → (Walk.topRound b (Walk.statement b)).Advances ts c) ∧
      (endsBlock (nextKind (ts.drop c.place)) = false → (Walk.blockRound b (Walk.statement b)).Advances ts c) := by
  obtain ⟨body, last, htokens, heof, hpos, hbody⟩ := Scan.tokens_scan source
  have htiles := Scan.tiles_segmentsFrom {} 0 1 source
  rw [Nat.zero_add] at htiles
  refine ⟨⟨fun before b t => (Scan.within_pieceAt before b t).size_le, htiles, Scan.bytes_segmentsFrom {} 0 1 source,
    body, last, htokens, heof, hpos, fun t ht => (hbody t ht).1.ne_eof⟩,
    ⟨Sweep.run_all source (Nat.lt_succ_self _), fun s hs => Sweep.advances_segment hs (Nat.le_refl _)⟩,
    ?_, Walk.run_program h hb, ?_⟩
  · exact fun b loops rest hk => Stmt.orResume_takes b loops hk
  · exact fun b c hb => ⟨Walk.advances_topRound h hb, Walk.advances_blockRound h hb⟩

/-- A source with a zero, a byte of no character and half a phrase, and tokens with
a block that has nothing but a fault in it and a brace too much. -/
theorem scan_and_read_in_bounds_faults :
    let source : Text := 0 :: 255 :: Text.ofString "KUNG X"
    let t (k : Kind) : Token := { kind := k, lexeme := [], line := 1 }
    let ts := [t .sugod, t .newline, t .pundok, t .leftBrace, t .comma, t .rightBrace, t .rightBrace, t .eof]
    (∃ s, (Sweep.all 9).run source ⟨0, 0, 1, [], []⟩ = some (⟨⟩, s) ∧ s.current = 8 ∧
      s.tokens.map (·.kind) = [.kung, .identifier, .eof] ∧ s.reports.length = 2) ∧
    EndsOnce ts ∧ ∃ place < 8, (Walk.program 18).run ts ⟨0, 0, []⟩ = .done ([.pundok []], false)
      ⟨place, 0, [⟨.expectedExpression, t .comma⟩, ⟨.unexpectedBrace, t .rightBrace⟩, ⟨.expectedEnd, t .eof⟩]⟩ := by
  intro source t ts
  have he : EndsOnce ts := ⟨ts.dropLast, t .eof, rfl, rfl, by decide⟩
  have hb : 2 * ts.length + 1 < 18 := by decide
  obtain ⟨-, ⟨hsweep, -⟩, -, hrun, -⟩ := scan_and_read_in_bounds source he hb
  exact ⟨⟨_, hsweep, rfl, by decide +kernel, by decide +kernel⟩, he, hrun⟩

end BisayaPlus
