import BisayaPlus.Program
import BisayaPlus.Proofs.Budget
/-!
# Recovery is local to a line

A line that holds no compound statement is read on its own: what is read from
it, what is complained about and where reading goes on do not depend on the
lines around it, however malformed it is. Either the statement takes the line
with its newline, or reading gets stuck on the line and is taken up on it or
right behind it.
-/

set_option autoImplicit false

namespace BisayaPlus

/-! ## Readers on a line -/

/-- The reading with more tokens behind those that are left. -/
def Reading.extend {α : Type} (more : List Token) : Reading α → Reading α
  | read value rest noted => read value (rest ++ more) noted
  | stuck complaint rest noted => stuck complaint (rest ++ more) noted

theorem Reading.extend_after {α : Type} (earlier : List Complaint) (more : List Token) (r : Reading α) :
    (r.after earlier).extend more = (r.extend more).after earlier := by
  cases r <;> rfl

/-- Where reading a line with its newline leaves off. A value leaves nothing if
the newline is part of it, and something if not. Stuck, the newline is left. -/
def Reading.Leaves {α : Type} (through : Bool) : Reading α → Prop
  | read _ rest _ => rest = [] ↔ through = true
  | stuck _ rest _ => rest ≠ []

theorem Reading.leaves_after {α : Type} {through : Bool} (earlier : List Complaint) {r : Reading α}
    (h : r.Leaves through) : (r.after earlier).Leaves through := by
  cases r <;> exact h

namespace TokenReader

variable {α β : Type} {through : Bool}

/-- The reader sees no further than the newline behind the line. It may take
that newline (`through`) or not. -/
def OnLine (through : Bool) (r : TokenReader α) (line : List Token) : Prop :=
  ∀ newline, newline.kind = .newline → (r.run (line ++ [newline])).Leaves through ∧
    ∀ more, r.run (line ++ newline :: more) = (r.run (line ++ [newline])).extend more

/-- The reader stays on every line, before its newline. -/
def Stays (r : TokenReader α) : Prop := ∀ line, OnLine false r line

/-- What is left of a line that does not lose its newline is a shorter line. -/
theorem line_of_suffix {rest line : List Token} {newline : Token} (hs : rest <:+ line ++ [newline])
    (hne : rest ≠ []) : ∃ line', rest = line' ++ [newline] ∧ line' <:+ line := by
  rcases List.suffix_concat_iff.1 hs with rfl | h
  · exact absurd rfl hne
  · exact h

theorem OnLine.bind {r : TokenReader α} {f : α → TokenReader β} {line : List Token} (h : OnLine false r line)
    (hf : ∀ a line', line' <:+ line → OnLine through (f a) line') : OnLine through (r >>= f) line := by
  intro newline hk
  obtain ⟨hleaves, hmore⟩ := h newline hk
  have hs := r.rest_suffix (line ++ [newline])
  cases hr : r.run (line ++ [newline]) with
  | stuck complaint rest noted =>
    rw [hr] at hleaves
    have hrun : (r >>= f).run (line ++ [newline]) = .stuck complaint rest noted := by rw [run_bind, hr]
    rw [hrun]
    refine ⟨hleaves, fun more => ?_⟩
    rw [run_bind, hmore more, hr]
    rfl
  | read a rest noted =>
    rw [hr] at hleaves hs
    obtain ⟨line', rfl, hline⟩ := line_of_suffix hs fun hnil => nomatch hleaves.1 hnil
    obtain ⟨hleaves', hmore'⟩ := hf a line' hline newline hk
    have hrun : (r >>= f).run (line ++ [newline]) = ((f a).run (line' ++ [newline])).after noted := by
      rw [run_bind, hr]
    rw [hrun]
    refine ⟨Reading.leaves_after noted hleaves', fun more => ?_⟩
    rw [run_bind, hmore more, hr, Reading.extend_after, ← hmore' more]
    simp only [Reading.extend, List.append_assoc, List.cons_append, List.nil_append]

theorem Stays.bind {r : TokenReader α} {f : α → TokenReader β} (h : Stays r) (hf : ∀ a, Stays (f a)) :
    Stays (r >>= f) :=
  fun line => (h line).bind fun a line' _ => hf a line'

/-! ## Primitive readers on a line -/

theorem stays_pure (a : α) : Stays (pure a : TokenReader α) := by
  intro line newline _
  exact ⟨by simp [run_pure, Reading.Leaves], fun more => by simp [run_pure, Reading.extend]⟩

theorem stays_peek : Stays peek := by
  intro line newline _
  cases line with
  | nil => exact ⟨by simp [peek, Reading.Leaves], fun more => rfl⟩
  | cons t line => exact ⟨by simp [peek, Reading.Leaves], fun more => by simp [peek, Reading.extend]⟩

theorem onLine_stuckAt (fault : SyntaxFault) (t : Token) (line : List Token) :
    OnLine through (stuckAt fault t : TokenReader α) line := by
  intro newline _
  exact ⟨by simp [stuckAt, Reading.Leaves], fun more => by simp [stuckAt, Reading.extend]⟩

theorem onLine_stuckHere (fault : SyntaxFault) (line : List Token) :
    OnLine through (stuckHere fault : TokenReader α) line := by
  intro newline _
  cases line with
  | nil => exact ⟨by simp [stuckHere, Reading.Leaves], fun more => rfl⟩
  | cons t line => exact ⟨by simp [stuckHere, Reading.Leaves], fun more => by simp [stuckHere, Reading.extend]⟩

theorem stays_note (fault : SyntaxFault) (t : Token) : Stays (note fault t) := by
  intro line newline _
  exact ⟨by simp [note, Reading.Leaves], fun more => by simp [note, Reading.extend]⟩

theorem stays_take? {wanted : Kind → Bool} (hw : wanted .newline = false) : Stays (take? wanted) := by
  intro line newline hk
  cases line with
  | nil => simp [take?, hk, hw, Reading.Leaves, Reading.extend]
  | cons t line => by_cases h : wanted t.kind <;> simp [take?, h, Reading.Leaves, Reading.extend]

theorem stays_expect {kind : Kind} (fault : SyntaxFault) (hkind : kind ≠ .newline) : Stays (expect kind fault) := by
  intro line newline hk
  cases line with
  | nil => simp [expect, hk, hkind.symm, Reading.Leaves, Reading.extend]
  | cons t line => by_cases h : t.kind = kind <;> simp [expect, h, Reading.Leaves, Reading.extend]

theorem stays_noting {c : Prop} [Decidable c] {fault : SyntaxFault} {t : Token} {f : PUnit → TokenReader β}
    (h : ∀ u, Stays (f u)) : Stays (if c then note fault t >>= f else f ⟨⟩) := by
  split
  · exact (stays_note fault t).bind h
  · exact h ⟨⟩

/-- A reader that looks at the next token sees a token of the line or its newline. -/
theorem onLine_peek {f : Token → TokenReader β} {line : List Token}
    (hnil : line = [] → ∀ newline, newline.kind = .newline → OnLine through (f newline) [])
    (hcons : ∀ t rest, line = t :: rest → OnLine through (f t) line) : OnLine through (peek >>= f) line := by
  intro newline hk
  simp only [run_peek]
  cases line with
  | nil => exact hnil rfl newline hk newline hk
  | cons t rest => exact hcons t rest rfl newline hk

theorem onLine_skip {f : PUnit → TokenReader β} {t : Token} {line : List Token} (h : OnLine through (f ⟨⟩) line) :
    OnLine through (skip >>= f) (t :: line) := by
  intro newline hk
  simp only [run_skip]
  exact h newline hk

/-- A token that is taken is one of the line. -/
theorem onLine_take? {wanted : Kind → Bool} (hw : wanted .newline = false) {f : Option Token → TokenReader β}
    {line : List Token} (hnone : OnLine through (f none) line)
    (hsome : ∀ t rest, line = t :: rest → wanted t.kind = true → OnLine through (f (some t)) rest) :
    OnLine through (take? wanted >>= f) line := by
  intro newline hk
  cases line with
  | nil =>
    simp only [run_bind, take?, List.nil_append, hk, hw, Bool.false_eq_true, if_false, Reading.after_nil]
    exact hnone newline hk
  | cons t rest =>
    by_cases h : wanted t.kind
    · simp only [run_bind, take?, List.cons_append, h, if_true, Reading.after_nil]
      exact hsome t rest rfl h newline hk
    · simp only [run_bind, take?, List.cons_append, h, Bool.false_eq_true, if_false, Reading.after_nil]
      exact hnone newline hk

end TokenReader

open TokenReader

/-! ## Expressions on a line -/

namespace Expr

theorem stays_moreOperands {isOperator : Kind → Bool} (ho : isOperator .newline = false)
    (build : Expr → Token → Expr → Expr) {operand : TokenReader Expr} (h : Stays operand) (bound : Nat) :
    ∀ left, Stays (moreOperands isOperator build operand bound left) := by
  induction bound with
  | zero => exact stays_pure
  | succ bound ih =>
    intro left
    refine (stays_take? ho).bind fun o => ?_
    cases o with
    | none => exact stays_pure left
    | some operator => exact h.bind fun right => ih _

theorem stays_leftGrouped {isOperator : Kind → Bool} (ho : isOperator .newline = false)
    (build : Expr → Token → Expr → Expr) (bound : Nat) {operand : TokenReader Expr} (h : Stays operand) :
    Stays (leftGrouped isOperator build bound operand) :=
  h.bind fun left => stays_moreOperands ho build h bound left

theorem stays_readTerm (bound : Nat) {unary : TokenReader Expr} (h : Stays unary) : Stays (readTerm bound unary) := by
  refine (stays_leftGrouped rfl _ bound (stays_leftGrouped rfl _ bound h)).bind fun term => stays_peek.bind fun t => ?_
  split
  · exact onLine_stuckHere .missingConcat
  · exact stays_pure term

theorem stays_readDisjunction (bound : Nat) {unary : TokenReader Expr} (h : Stays unary) :
    Stays (readDisjunction bound unary) := by
  refine stays_leftGrouped rfl _ bound (stays_leftGrouped rfl _ bound ?_)
  exact stays_leftGrouped rfl _ bound (stays_leftGrouped rfl _ bound (stays_readTerm bound h))

theorem stays_readPrimary {nested : TokenReader Expr} (h : Stays nested) : Stays (readPrimary nested) := by
  intro line
  refine onLine_peek (fun _ newline hk => ?_) fun t rest hline => ?_
  · simp only [literalOf?, hk]
    exact onLine_stuckHere _ _
  · subst hline
    cases literalOf? t with
    | some value => exact onLine_skip (stays_pure _ rest)
    | none =>
      dsimp only
      split
      · refine onLine_skip ((stays_take? rfl).bind (fun o => ?_) rest)
        cases o <;> exact stays_pure _
      · exact onLine_skip (h.bind (fun inner => (stays_expect _ (by decide)).bind fun _ => stays_pure _) rest)
      · exact onLine_stuckHere _ _

theorem stays_readers (budget : Nat) : Stays (readUnary budget) ∧ Stays (readWithin budget) := by
  induction budget with
  | zero => exact ⟨onLine_stuckHere _, onLine_stuckHere _⟩
  | succ budget ih =>
    obtain ⟨hunary, hwithin⟩ := ih
    constructor
    · rw [readUnary]
      refine (stays_take? rfl).bind fun o => ?_
      cases o with
      | none => exact stays_readPrimary hwithin
      | some operator =>
        refine hunary.bind fun right => ?_
        split
        · split
          · exact stays_pure _
          · exact onLine_stuckAt _ _
        · exact stays_pure _
    · rw [readWithin]
      refine (stays_readDisjunction budget hunary).bind fun left => (stays_take? rfl).bind fun o => ?_
      cases o with
      | none => exact stays_pure left
      | some sign =>
        refine hwithin.bind fun value => ?_
        split
        · exact stays_pure _
        · exact onLine_stuckAt _ _

end Expr

/-! ## Simple statements on a line -/

/-- The tokens hold no newline, no end of a block or of the program, and no
keyword of a compound statement. -/
def Plain (line : List Token) : Prop :=
  ∀ t ∈ line, t.kind ∉ [Kind.newline, .eof, .katapusan, .rightBrace, .kung, .mintras, .buhata, .alangSa, .pundok]

theorem Plain.head {t : Token} {line : List Token} (h : Plain (t :: line)) :
    t.kind ≠ .newline ∧ endsBlock t.kind = false := by
  have ht := h t (by simp)
  rw [endsBlock_eq_false]
  simp_all

theorem Plain.tail {t : Token} {line : List Token} (h : Plain (t :: line)) : Plain line :=
  fun u hu => h u (List.mem_cons_of_mem t hu)

theorem Plain.suffix {line line' : List Token} (h : Plain line) (hs : line' <:+ line) : Plain line' :=
  fun t ht => h t (hs.subset ht)

namespace Stmt

theorem stays_checkInitializer (declared : DataType) (start : Token) (e : Expr) :
    Stays (checkInitializer declared start e) := by
  unfold checkInitializer
  split
  · exact stays_pure _
  · split
    · exact stays_pure _
    · exact onLine_stuckAt _ _
  · split
    · exact stays_pure _
    · exact onLine_stuckAt _ _
  · exact stays_pure _

variable {expression : TokenReader Expr}

theorem stays_readInitializer (declared : DataType) (hx : Stays expression) :
    Stays (readInitializer declared expression) := by
  refine (stays_take? rfl).bind fun o => ?_
  cases o with
  | none => exact stays_pure none
  | some _ =>
    refine stays_peek.bind fun start => hx.bind fun e => ?_
    exact (stays_checkInitializer declared start e).bind fun _ => stays_pure _

theorem stays_readDeclared (declared : DataType) (single : Bool) (hx : Stays expression) (bound : Nat) :
    ∀ seen, Stays (readDeclared declared single expression bound seen) := by
  induction bound with
  | zero => exact fun _ => stays_pure []
  | succ bound ih =>
    intro seen
    refine (stays_expect _ (by decide)).bind fun name => stays_noting fun _ => ?_
    refine (stays_readInitializer declared hx).bind fun initial => ?_
    split
    · exact stays_pure _
    · refine (stays_take? rfl).bind fun o => ?_
      cases o with
      | none => exact stays_pure _
      | some _ => exact (ih _).bind fun more => stays_pure _

theorem stays_readDeclaration (keyword : Token) (single : Bool) (bound : Nat) (hx : Stays expression) :
    Stays (readDeclaration keyword single bound expression) := by
  intro line
  refine onLine_peek (fun _ newline hk => ?_) fun t rest hline => ?_
  · simp only [Kind.dataType?, hk]
    exact onLine_stuckHere _ _
  · subst hline
    split
    · exact onLine_stuckHere _ _
    · next declared _ =>
      exact onLine_skip ((stays_readDeclared declared single hx bound []).bind (fun names => stays_pure _) rest)

theorem stays_readNames (bound : Nat) : Stays (readNames bound) := by
  induction bound with
  | zero => exact stays_pure []
  | succ bound ih =>
    refine (stays_expect _ (by decide)).bind fun name => (stays_take? rfl).bind fun o => ?_
    cases o with
    | none => exact stays_pure _
    | some _ => exact ih.bind fun more => stays_pure _

/-- The end of a statement is the newline of its line. -/
theorem onLine_endStatement {line : List Token} (hp : Plain line) (s : Stmt) :
    OnLine true (endStatement >>= fun _ => pure s) line := by
  intro newline hk
  cases line with
  | nil => simp [endStatement, run_bind, take?, hk, run_pure, Reading.after, Reading.Leaves, Reading.extend]
  | cons t line =>
    simp [endStatement, run_bind, take?, peek, stuckHere, hp.head, Reading.after, Reading.Leaves, Reading.extend]

theorem onLine_readKeyword (loops bound : Nat) (statement inLoop : TokenReader Stmt) (hx : Stays expression)
    {keyword : Token} {line : List Token} (hk : keyword.kind ∈ [Kind.mugna, .ipakita, .dawat, .hunong, .padayon])
    (hp : Plain line) : OnLine true (readKeyword loops bound expression statement inLoop keyword) line := by
  have hend : ∀ (s : Stmt) (line' : List Token), line' <:+ line →
      OnLine true (endStatement >>= fun _ => pure s) line' :=
    fun s line' hs => onLine_endStatement (hp.suffix hs) s
  have hjump : ∀ jump, OnLine true (readJump loops keyword jump) line := by
    intro jump
    unfold readJump
    split
    · exact onLine_stuckAt _ _ _
    · exact hend jump line (List.suffix_refl line)
  have hcolon : Stays (expect .colon .expectedColon) := stays_expect _ (by decide)
  simp only [List.mem_cons, List.not_mem_nil, or_false] at hk
  unfold readKeyword
  rcases hk with hk | hk | hk | hk | hk <;> simp only [hk]
  · exact (stays_readDeclaration keyword false bound hx line).bind fun d => hend d
  · refine (hcolon line).bind fun _ line' hs => (hx line').bind fun e line'' hs' => ?_
    exact hend _ line'' (hs'.trans hs)
  · refine (hcolon line).bind fun _ line' hs => (stays_readNames bound line').bind fun names line'' hs' => ?_
    exact hend _ line'' (hs'.trans hs)
  · exact hjump _
  · exact hjump _

/-- A statement takes its line whole or gets stuck on it. -/
theorem onLine_readWithin (budget loops : Nat) {line : List Token} (hp : Plain line) :
    OnLine true (readWithin budget loops) line := by
  cases budget with
  | zero => exact onLine_stuckHere _ line
  | succ budget =>
    have hx := (Expr.stays_readers budget).2
    rw [readWithin]
    refine onLine_take? rfl ?_ fun keyword rest hline hstarts => ?_
    · exact (hx line).bind fun e line' hs => onLine_endStatement (hp.suffix hs) _
    · subst hline
      have hkeyword : keyword.kind ∈ [Kind.mugna, .ipakita, .dawat, .hunong, .padayon] := by
        have hkind := hp keyword (by simp)
        rw [startsStatement_iff] at hstarts
        grind
      exact onLine_readKeyword loops budget _ _ hx hkeyword hp.tail

end Stmt

/-! ## Taking up again -/

namespace TokenReader

theorem skipLine_line {line : List Token} (hp : Plain line) {newline : Token} (hk : newline.kind = .newline) :
    (∀ more, skipLine (line ++ newline :: more) = more) ∨
      ∃ line', line' <:+ line ∧ ∀ more, skipLine (line ++ newline :: more) = line' ++ newline :: more := by
  induction line with
  | nil =>
    left
    intro more
    simp [skipLine, hk, startsStatement, endsBlock]
  | cons t line ih =>
    by_cases hs : startsStatement t.kind
    · right
      refine ⟨t :: line, List.suffix_refl _, fun more => ?_⟩
      simp [skipLine, hs]
    · have hskip : ∀ more, skipLine (t :: line ++ newline :: more) = skipLine (line ++ newline :: more) := by
        intro more
        simp [skipLine, hs, hp.head]
      rcases ih hp.tail with h | ⟨line', hline, h⟩
      · exact .inl fun more => (hskip more).trans (h more)
      · exact .inr ⟨line', hline.trans (List.suffix_cons t line), fun more => (hskip more).trans (h more)⟩

/-- Reading is taken up behind the line or on a later part of it. -/
theorem resume_line {line : List Token} (hp : Plain line) {newline : Token} (hk : newline.kind = .newline) :
    (∀ more, resume (line ++ newline :: more) = more) ∨
      ∃ line', line' <:+ line ∧ line'.length < line.length ∧
        ∀ more, resume (line ++ newline :: more) = line' ++ newline :: more := by
  cases line with
  | nil =>
    left
    intro more
    simp [resume, hk, endsBlock]
  | cons t line =>
    have hskip : ∀ more, resume (t :: line ++ newline :: more) = skipLine (line ++ newline :: more) := by
      intro more
      simp [resume, hp.head]
    rcases skipLine_line hp.tail hk with h | ⟨line', hline, h⟩
    · exact .inl fun more => (hskip more).trans (h more)
    · refine .inr ⟨line', hline.trans (List.suffix_cons t line), ?_, fun more => (hskip more).trans (h more)⟩
      exact Nat.lt_succ_of_le hline.length_le

end TokenReader

/-! ## The statements of a program -/

namespace ReadProgram

variable {r : TokenReader Stmt}

/-- Whatever the bound, as long as it is large enough: `statements` are read
from `ts`, and `rest` is left. -/
def ReadsTop (r : TokenReader Stmt) (ts : List Token) (statements : List Stmt) (rest : List Token)
    (complaints : List Complaint) : Prop :=
  ∀ bound, ts.length ≤ bound → (readTop r bound).run ts = .read statements rest complaints

theorem readsTop_end {stop : Token} {rest : List Token} (hk : stop.kind = .katapusan) :
    ReadsTop r (stop :: rest) [] (stop :: rest) [] := by
  intro bound hb
  obtain ⟨bound, rfl⟩ : ∃ k, bound = k + 1 := ⟨bound - 1, by rw [List.length_cons] at hb; omega⟩
  rw [readTop, run_peek, List.headD_cons, if_pos (.inr hk)]
  rfl

theorem ReadsTop.newline {t : Token} {ts rest : List Token} {statements : List Stmt} {complaints : List Complaint}
    (hk : t.kind = .newline) (h : ReadsTop r ts statements rest complaints) :
    ReadsTop r (t :: ts) statements rest complaints := by
  intro bound hb
  rw [List.length_cons] at hb
  obtain ⟨bound, rfl⟩ : ∃ k, bound = k + 1 := ⟨bound - 1, by omega⟩
  rw [readTop, run_peek, List.headD_cons, if_neg (by simp [hk]), if_pos hk, run_skip]
  exact h bound (by omega)

theorem ReadsTop.round {t : Token} {ts mid rest : List Token} {read : Option Stmt} {statements : List Stmt}
    {noted complaints : List Complaint} (hc : Consumes r) (hn : t.kind ≠ .newline) (he : endsBlock t.kind = false)
    (hr : (orResume r).run (t :: ts) = .read read mid noted) (h : ReadsTop r mid statements rest complaints) :
    ReadsTop r (t :: ts) (read.toList ++ statements) rest (noted ++ complaints) := by
  intro bound hb
  have hlt : mid.length < (t :: ts).length := hc.orResume he hr
  obtain ⟨bound, rfl⟩ : ∃ k, bound = k + 1 := ⟨bound - 1, by omega⟩
  obtain ⟨hkatapusan, hbrace, heof⟩ := endsBlock_eq_false.1 he
  rw [readTop, run_peek, List.headD_cons, if_neg (by simp [heof, hkatapusan]), if_neg hn, if_neg hbrace, run_bind, hr]
  dsimp only
  rw [run_bind, h bound (by omega)]
  simp [run_pure, Reading.after]

/-- A line adds its own statements and complaints to those of the lines behind
it, by induction on its length: after a complaint a shorter part of it is left. -/
theorem readsTop_line (hc : Consumes r) (hr : ∀ line, Plain line → OnLine true r line) {newline : Token}
    (hk : newline.kind = .newline) (n : Nat) : ∀ line, line.length = n → Plain line →
      ∃ statements complaints, ∀ more statements' rest complaints', ReadsTop r more statements' rest complaints' →
        ReadsTop r (line ++ newline :: more) (statements ++ statements') rest (complaints ++ complaints') := by
  induction n using Nat.strongRecOn with
  | ind n ih =>
    intro line hn hp
    cases line with
    | nil => exact ⟨[], [], fun more statements' rest complaints' h => h.newline hk⟩
    | cons t line =>
      obtain ⟨hleaves, hmore⟩ := hr _ hp newline hk
      have hs := r.rest_suffix (t :: line ++ [newline])
      cases hrun : r.run (t :: line ++ [newline]) with
      | read s left noted =>
        rw [hrun] at hleaves
        obtain rfl : left = [] := hleaves.2 rfl
        have hread : ∀ more, (orResume r).run (t :: (line ++ newline :: more)) = .read (some s) more noted := by
          intro more
          rw [← List.cons_append, run_orResume, hmore more, hrun]
          rfl
        exact ⟨[s], noted, fun more _ _ _ h => ReadsTop.round hc hp.head.1 hp.head.2 (hread more) h⟩
      | stuck complaint left noted =>
        rw [hrun] at hleaves hs
        obtain ⟨line', rfl, hline⟩ := line_of_suffix hs hleaves
        have hstuck : ∀ more, (orResume r).run (t :: (line ++ newline :: more)) =
            .read none (resume (line' ++ newline :: more)) (noted ++ [complaint]) := by
          intro more
          rw [← List.cons_append, run_orResume, hmore more, hrun]
          simp [Reading.extend]
        rcases resume_line (hp.suffix hline) hk with h | ⟨line'', hline', hlt, h⟩
        · refine ⟨[], noted ++ [complaint], fun more statements' rest complaints' htop => ?_⟩
          exact ReadsTop.round hc hp.head.1 hp.head.2 ((hstuck more).trans (by rw [h more])) htop
        · -- reading is taken up at a keyword on the line, behind the token it got stuck at
          have hshort := hline.length_le
          obtain ⟨statements, complaints, htail⟩ :=
            ih line''.length (by omega) line'' rfl (hp.suffix (hline'.trans hline))
          refine ⟨statements, noted ++ [complaint] ++ complaints, fun more statements' rest complaints' htop => ?_⟩
          rw [List.append_assoc _ complaints]
          exact ReadsTop.round hc hp.head.1 hp.head.2 ((hstuck more).trans (by rw [h more]))
            (htail more statements' rest complaints' htop)

end ReadProgram

/-! ## Lines of a program -/

/-- A line without a compound statement, with its newline. -/
structure Line where
  tokens : List Token
  newline : Token
  plain : Plain tokens
  ends : newline.kind = .newline

/-- What stands around the lines of a program. -/
structure Frame where
  start : Token
  newline : Token
  stop : Token
  last : Token
  starts : start.kind = .sugod
  breaks : newline.kind = .newline
  stops : stop.kind = .katapusan
  ends : last.kind = .eof

namespace Frame

open ReadProgram

/-- The tokens of the lines and of the end of the program. -/
def body (frame : Frame) (lines : List Line) : List Token :=
  lines.flatMap (fun line => line.tokens ++ [line.newline]) ++ [frame.stop, frame.last]

/-- The tokens of a program with these lines. -/
def tokens (frame : Frame) (lines : List Line) : List Token := frame.start :: frame.newline :: frame.body lines

/-- The program with these lines, whose bytes are in order. -/
def program (frame : Frame) (lines : List Line) : Program :=
  .ofScanned { tokens := frame.tokens lines, diagnostics := [], lastLine := frame.last.line }

theorem body_cons (frame : Frame) (line : Line) (lines : List Line) :
    frame.body (line :: lines) = line.tokens ++ line.newline :: frame.body lines := by
  simp [body]

/-- What is read from the body of a program is what is read from the program. -/
theorem ofTokens_of_readsTop {frame : Frame} {lines : List Line} {budget : Nat} {statements : List Stmt}
    {complaints : List Complaint} (hb : 2 * (frame.tokens lines).length < budget)
    (h : ReadsTop (Stmt.readWithin budget 0) (frame.body lines) statements [frame.stop, frame.last] complaints) :
    ofTokens (frame.tokens lines) = { statements := statements, complaints := complaints, ended := true } := by
  have hrun : (readAll (2 * (frame.tokens lines).length + 3)).run (frame.tokens lines) =
      .read (statements, true) [frame.last] complaints := by
    have hskip : afterNewlines (frame.tokens lines) = frame.tokens lines := by
      simp [tokens, afterNewlines, frame.starts]
    have htop := h.newline frame.breaks budget (by rw [tokens, List.length_cons] at hb; omega)
    rw [← agree_readAll hb (by omega) _ (Nat.le_refl _), readAll, run_skipNewlines, hskip, tokens, run_bind]
    simp only [take?, frame.starts, beq_self_eq_true, if_true, Reading.after_nil]
    rw [run_bind, htop]
    simp [readEnd, run_bind, take?, skipNewlines, afterNewlines, peek, run_pure, frame.stops, frame.ends, Reading.after]
  rw [ofTokens, hrun]

/-- What a line adds to the lines behind it, by a reader of statements with any budget. -/
theorem readsTop_cons (line : Line) (budget : Nat) :
    ∃ statements complaints, ∀ more statements' rest complaints',
      ReadsTop (Stmt.readWithin budget 0) more statements' rest complaints' →
        ReadsTop (Stmt.readWithin budget 0) (line.tokens ++ line.newline :: more) (statements ++ statements') rest
          (complaints ++ complaints') :=
  readsTop_line (Stmt.consumes_readWithin budget 0) (fun _ hp => Stmt.onLine_readWithin budget 0 hp) line.ends _
    line.tokens rfl line.plain

theorem readsTop_body (frame : Frame) (budget : Nat) (lines : List Line) :
    ∃ statements complaints,
      ReadsTop (Stmt.readWithin budget 0) (frame.body lines) statements [frame.stop, frame.last] complaints := by
  induction lines with
  | nil => exact ⟨[], [], readsTop_end frame.stops⟩
  | cons line lines ih =>
    obtain ⟨statements, complaints, hline⟩ := readsTop_cons line budget
    obtain ⟨statements', complaints', hlines⟩ := ih
    rw [body_cons]
    exact ⟨_, _, hline _ _ _ _ hlines⟩

/-- A program is read like its first line alone, in any frame, and then the rest. -/
theorem ofTokens_cons (frame alone : Frame) (line : Line) (lines : List Line) :
    ofTokens (frame.tokens (line :: lines)) =
      { statements := (ofTokens (alone.tokens [line])).statements ++ (ofTokens (frame.tokens lines)).statements
        complaints := (ofTokens (alone.tokens [line])).complaints ++ (ofTokens (frame.tokens lines)).complaints
        ended := true } := by
  -- a budget that is enough for the three programs
  let budget := 2 * ((frame.tokens (line :: lines)).length + (alone.tokens [line]).length +
    (frame.tokens lines).length) + 1
  obtain ⟨own, noted, hline⟩ := readsTop_cons line budget
  obtain ⟨statements, complaints, hlines⟩ := readsTop_body frame budget lines
  have hwhole : ofTokens (frame.tokens (line :: lines)) = ⟨own ++ statements, noted ++ complaints, true⟩ := by
    refine ofTokens_of_readsTop (show _ < budget by omega) ?_
    rw [body_cons]
    exact hline _ _ _ _ hlines
  have halone : ofTokens (alone.tokens [line]) = ⟨own ++ [], noted ++ [], true⟩ := by
    refine ofTokens_of_readsTop (show _ < budget by omega) ?_
    rw [body_cons]
    exact hline _ _ _ _ (readsTop_end alone.stops)
  rw [hwhole, halone, ofTokens_of_readsTop (show _ < budget by omega) hlines, List.append_nil, List.append_nil]

theorem ofTokens_nil (frame : Frame) : ofTokens (frame.tokens []) = ⟨[], [], true⟩ :=
  ofTokens_of_readsTop (Nat.lt_succ_self _) (readsTop_end frame.stops)

theorem statements_program (frame : Frame) (lines : List Line) :
    (frame.program lines).statements = (ofTokens (frame.tokens lines)).statements := rfl

theorem diagnostics_program (frame : Frame) (lines : List Line) :
    (frame.program lines).diagnostics =
      (ofTokens (frame.tokens lines)).complaints.map fun c => .ofSyntax c.fault c.token :=
  Program.diagnostics_ofScanned rfl

/-- The statements and the reports of a program are those of its lines, each
read alone and in any frame: a malformed line neither swallows nor damages nor
blames another one. -/
theorem program_reads_lines_alone (frame : Frame) (alone : Line → Frame) (lines : List Line) :
    (frame.program lines).statements = lines.flatMap (fun line => ((alone line).program [line]).statements) ∧
      (frame.program lines).diagnostics = lines.flatMap (fun line => ((alone line).program [line]).diagnostics) := by
  simp only [statements_program, diagnostics_program]
  induction lines with
  | nil => simp [ofTokens_nil]
  | cons line lines ih =>
    obtain ⟨hstatements, hdiagnostics⟩ := ih
    rw [ofTokens_cons frame (alone line)]
    simp only [List.flatMap_cons, List.map_append, hstatements, hdiagnostics, and_self]

/-- A line without its second operand, between two that can be read. -/
example :
    let t (k : Kind) : Token := { kind := k, lexeme := [], line := 1 }
    let frame : Frame := ⟨t .sugod, t .newline, t .katapusan, t .eof, rfl, rfl, rfl, rfl⟩
    let good : Line := ⟨[t .identifier], t .newline, by unfold Plain; decide, rfl⟩
    let bad : Line := ⟨[t .identifier, t .plus], t .newline, by unfold Plain; decide, rfl⟩
    (frame.program [good, bad, good]).statements = [.expr (.var (t .identifier)), .expr (.var (t .identifier))] ∧
      (frame.program [good, bad, good]).diagnostics = [.ofSyntax .expectedExpression (t .newline)] :=
  ⟨rfl, rfl⟩

end Frame

end BisayaPlus
