import BisayaPlus.Proofs.StatementParts
/-!
# The statement reader follows the grammar

What the reader takes without a complaint is a statement of the grammar, and
every statement of the grammar is taken whole. The end of the tokens needs
care: a simple statement may end there for the reader and not in the grammar.
Nothing can be read after that end, so a reading that leaves another token has
not met it.
-/

set_option autoImplicit false

namespace BisayaPlus.Grammar

open TokenReader Stmt

/-! ## What is read is a statement -/

/-- On at most `n` tokens, the reader takes only statements. -/
def StatementSound (n : Nat) (inLoop : Bool) (r : TokenReader Stmt) : Prop :=
  ∀ ts s rest, ts.length ≤ n → Reads r ts s rest → nextKind rest ≠ .eof →
    ∃ taken, ts = taken ++ rest ∧ Derives inLoop (.statement s) taken rest

section Sound

variable {n : Nat} {inLoop : Bool} {r : TokenReader Stmt} {expression : TokenReader Expr}

theorem body_of_reads (hr : StatementSound n inLoop r) {ts rest : List Token} {s : Stmt} (hn : ts.length ≤ n)
    (h : Reads (readBody r) ts s rest) (he : nextKind rest ≠ .eof) :
    ∃ taken, ts = taken ++ rest ∧ Derives inLoop (.body s) taken rest := by
  rw [readBody, reads_skipNewlines] at h
  obtain ⟨blank, hb, hts, -⟩ := afterNewlines_spec ts
  have hlen : (afterNewlines ts).length ≤ n := by
    rw [hts, List.length_append] at hn
    omega
  obtain ⟨taken, ht, hd⟩ := hr _ _ _ hlen h he
  rw [ht] at hts
  exact ⟨blank ++ taken, by rw [List.append_assoc]; exact hts, .body hb hd⟩

/-- No alternative is taken where the tokens end. -/
theorem alternatives_at_end {body : TokenReader Stmt} {bound : Nat} {ts rest : List Token}
    {branches : List (Expr × Stmt)} (h : Reads (readAlternatives expression body bound) ts branches rest)
    (he : nextKind ts = .eof) : ts = rest := by
  cases bound with
  | zero => exact (reads_pure.1 h).2
  | succ bound =>
    rw [readAlternatives, reads_bind] at h
    obtain ⟨o, mid, ho, h⟩ := h
    cases o with
    | none =>
      obtain ⟨rfl, -⟩ := (reads_takePast?_none (by decide)).1 ho
      exact (reads_pure.1 h).2
    | some word =>
      obtain ⟨ha, hk⟩ := reads_takePast?_some.1 ho
      rw [afterNewlines_of_ne (by simp [he])] at ha
      rw [ha, nextKind_cons, hk] at he
      cases he

theorem otherwise_at_end {body : TokenReader Stmt} {ts rest : List Token} {last : Option Stmt}
    (h : Reads (readOtherwise body) ts last rest) (he : nextKind ts = .eof) : ts = rest := by
  rw [readOtherwise, reads_bind] at h
  obtain ⟨o, mid, ho, h⟩ := h
  cases o with
  | none =>
    obtain ⟨rfl, -⟩ := (reads_takePast?_none (by decide)).1 ho
    exact (reads_pure.1 h).2
  | some word =>
    obtain ⟨ha, hk⟩ := reads_takePast?_some.1 ho
    rw [afterNewlines_of_ne (by simp [he])] at ha
    rw [ha, nextKind_cons, hk] at he
    cases he

theorem alternatives_of_reads (hx : Sound expression .assignment) (hr : StatementSound n inLoop r) (bound : Nat) :
    ∀ ts branches rest, ts.length ≤ n → ts.length ≤ bound →
      Reads (readAlternatives expression (readBody r) bound) ts branches rest → nextKind rest ≠ .eof →
      ∃ taken, ts = taken ++ rest ∧ Derives inLoop (.alternatives branches) taken rest := by
  induction bound with
  | zero =>
    intro ts branches rest _ hb h he
    obtain ⟨rfl, rfl⟩ := reads_pure.1 h
    obtain rfl := List.length_eq_zero_iff.1 (Nat.le_zero.1 hb)
    exact absurd rfl he
  | succ bound ih =>
    intro ts branches rest hn hb h he
    rw [readAlternatives, reads_bind] at h
    obtain ⟨o, mid, ho, h⟩ := h
    cases o with
    | none =>
      obtain ⟨rfl, hk⟩ := (reads_takePast?_none (by decide)).1 ho
      obtain ⟨rfl, rfl⟩ := reads_pure.1 h
      exact ⟨[], rfl, .noAlternative fun hl => hk ((leads_iff (by decide) (by decide) ts).1 hl)⟩
    | some word =>
      obtain ⟨ha, hk⟩ := reads_takePast?_some.1 ho
      obtain ⟨blank, hbl, hts, -⟩ := afterNewlines_spec ts
      rw [ha] at hts
      obtain ⟨condition, mid1, h1, h2⟩ := reads_bind.1 h
      obtain ⟨inner, mid2, h3, h4⟩ := reads_bind.1 h2
      obtain ⟨more, mid3, h5, h6⟩ := reads_bind.1 h4
      obtain ⟨rfl, rfl⟩ := reads_pure.1 h6
      obtain ⟨cs, rfl, hc⟩ := condition_of_reads hx h1
      have he2 : nextKind mid2 ≠ .eof := fun h => he (alternatives_at_end h5 h ▸ h)
      have hl1 : ts.length = blank.length + (cs.length + mid1.length) + 1 := by simp [hts]; omega
      obtain ⟨bs, rfl, hbody⟩ := body_of_reads hr (by omega) h3 he2
      rw [List.length_append] at hl1
      obtain ⟨as, rfl, has⟩ := ih _ _ _ (by omega) (by omega) h5 he
      exact ⟨blank ++ word :: cs ++ bs ++ as, by simp [hts], .alternative hbl hk hc hbody has⟩

theorem otherwise_of_reads (hr : StatementSound n inLoop r) {ts rest : List Token} {last : Option Stmt}
    (hn : ts.length ≤ n) (h : Reads (readOtherwise (readBody r)) ts last rest) (he : nextKind rest ≠ .eof) :
    ∃ taken, ts = taken ++ rest ∧ Derives inLoop (.otherwise last) taken rest := by
  rw [readOtherwise, reads_bind] at h
  obtain ⟨o, mid, ho, h⟩ := h
  cases o with
  | none =>
    obtain ⟨rfl, hk⟩ := (reads_takePast?_none (by decide)).1 ho
    obtain ⟨rfl, rfl⟩ := reads_pure.1 h
    exact ⟨[], rfl, .noOtherwise fun hl => hk ((leads_iff (by decide) (by decide) ts).1 hl)⟩
  | some word =>
    obtain ⟨ha, hk⟩ := reads_takePast?_some.1 ho
    obtain ⟨blank, hbl, hts, -⟩ := afterNewlines_spec ts
    rw [ha] at hts
    obtain ⟨inner, mid', h1, h2⟩ := reads_bind.1 h
    obtain ⟨rfl, rfl⟩ := reads_pure.1 h2
    have hl : ts.length = blank.length + mid.length + 1 := by simp [hts]; omega
    obtain ⟨bs, rfl, hbody⟩ := body_of_reads hr (by omega) h1 he
    exact ⟨blank ++ word :: bs, by simp [hts], .otherwise hbl hk hbody⟩

/-- The loop over the items of a block stops at an end, passes a newline, or
takes a statement. -/
theorem reads_readItems {bound : Nat} {ts rest : List Token} {statements : List Stmt} :
    Reads (readItems r (bound + 1)) ts statements rest ↔
      (endsBlock (nextKind ts) = true ∧ statements = [] ∧ ts = rest) ∨
      (∃ t mid, ts = t :: mid ∧ t.kind = .newline ∧ Reads (readItems r bound) mid statements rest) ∨
      (endsBlock (nextKind ts) = false ∧ nextKind ts ≠ .newline ∧ ∃ s mid more, Reads r ts s mid ∧
        Reads (readItems r bound) mid more rest ∧ statements = s :: more) := by
  rw [readItems, reads_peek]
  change Reads (if endsBlock (nextKind ts) = true then _ else if nextKind ts = .newline then _ else _) _ _ _ ↔ _
  constructor
  · intro h
    split at h
    · next hk =>
      obtain ⟨rfl, rfl⟩ := reads_pure.1 h
      exact .inl ⟨hk, rfl, rfl⟩
    · next hk =>
      split at h
      · next hnl =>
        cases ts with
        | nil => cases hnl
        | cons t mid => exact .inr (.inl ⟨t, mid, rfl, hnl, reads_skip.1 h⟩)
      · next hnl =>
        obtain ⟨o, mid, h1, h2⟩ := reads_bind.1 h
        obtain ⟨more, mid', h3, h4⟩ := reads_bind.1 h2
        obtain ⟨rfl, rfl⟩ := reads_pure.1 h4
        obtain ⟨s, rfl, hs⟩ := reads_orResume.1 h1
        exact .inr (.inr ⟨by simpa using hk, hnl, s, mid, more, hs, h3, rfl⟩)
  · rintro (⟨hk, rfl, rfl⟩ | ⟨t, mid, rfl, hk, h⟩ | ⟨hk, hnl, s, mid, more, h1, h2, rfl⟩)
    · rw [if_pos hk]
      exact reads_pure.2 ⟨rfl, rfl⟩
    · rw [if_neg (by simp [hk, endsBlock]), if_pos (by simpa using hk)]
      exact reads_skip.2 h
    · rw [if_neg (by simp [hk]), if_neg hnl]
      exact .bind (reads_orResume.2 ⟨s, rfl, h1⟩) (.bind h2 (reads_pure.2 ⟨rfl, rfl⟩))

/-- No statement is taken where the tokens end. -/
theorem items_at_end {bound : Nat} {ts rest : List Token} {statements : List Stmt}
    (h : Reads (readItems r bound) ts statements rest) (he : nextKind ts = .eof) : ts = rest := by
  cases bound with
  | zero => exact (reads_pure.1 h).2
  | succ bound =>
    rcases reads_readItems.1 h with ⟨-, -, rfl⟩ | ⟨t, mid, rfl, hk, -⟩ | ⟨hk, -⟩
    · rfl
    · rw [nextKind_cons, hk] at he
      cases he
    · rw [he] at hk
      cases hk

theorem items_of_reads (hr : StatementSound n inLoop r) (bound : Nat) :
    ∀ ts statements rest, ts.length ≤ n → Reads (readItems r bound) ts statements rest → nextKind rest ≠ .eof →
      ∃ taken, ts = taken ++ rest ∧ Derives inLoop (.items statements) taken rest := by
  induction bound with
  | zero =>
    intro ts statements rest _ h _
    obtain ⟨rfl, rfl⟩ := reads_pure.1 h
    exact ⟨[], rfl, .noItem⟩
  | succ bound ih =>
    intro ts statements rest hn h he
    rcases reads_readItems.1 h with ⟨-, rfl, rfl⟩ | ⟨t, mid, rfl, hk, h'⟩ | ⟨-, -, s, mid, more, h1, h2, rfl⟩
    · exact ⟨[], rfl, .noItem⟩
    · rw [List.length_cons] at hn
      obtain ⟨taken, rfl, hd⟩ := ih _ _ _ (by omega) h' he
      exact ⟨t :: taken, rfl, .newline hk hd⟩
    · have hm : nextKind mid ≠ .eof := fun hm => he (items_at_end h2 hm ▸ hm)
      obtain ⟨taken, rfl, hd⟩ := hr _ _ _ hn h1 hm
      rw [List.length_append] at hn
      obtain ⟨others, rfl, hd'⟩ := ih _ _ _ (by omega) h2 he
      exact ⟨taken ++ others, by simp, .item hd hd'⟩

theorem counted_eq (keyword : Token) (start : Option Stmt) (condition increment : Option Expr) (body : Stmt) :
    countedLoop keyword start condition increment body = counted keyword start condition increment body := by
  cases start <;> cases increment <;> rfl

/-- A counted loop after its keyword. -/
theorem countedLoop_of_reads (hx : Sound expression .assignment) (hr : StatementSound n true r) {keyword : Token}
    (hk : keyword.kind = .alangSa) {bound : Nat} (hb : 0 < bound) {ts rest : List Token} {s : Stmt}
    (hn : ts.length ≤ n) (h : Reads (readCountedLoop keyword bound expression (readBody r)) ts s rest)
    (he : nextKind rest ≠ .eof) :
    ∃ taken, ts = taken ++ rest ∧ Derives inLoop (.statement s) (keyword :: taken) rest := by
  rw [readCountedLoop, reads_expect] at h
  obtain ⟨opening, mid1, rfl, ho, h1⟩ := h
  obtain ⟨start, mid2, hs, h2⟩ := reads_bind.1 h1
  obtain ⟨comma, mid3, rfl, hc, h3⟩ := reads_expect.1 h2
  obtain ⟨condition, mid4, ht, h4⟩ := reads_bind.1 h3
  obtain ⟨comma', mid5, rfl, hc', h5⟩ := reads_expect.1 h4
  obtain ⟨increment, mid6, hi, h6⟩ := reads_bind.1 h5
  obtain ⟨closing, mid7, rfl, hcl, h7⟩ := reads_expect.1 h6
  obtain ⟨inner, mid8, hin, h8⟩ := reads_bind.1 h7
  obtain ⟨rfl, rfl⟩ := reads_pure.1 h8
  obtain ⟨is, rfl, hstart⟩ := start_of_reads hx hb hs
  obtain ⟨cs, rfl, hcond⟩ := optional_of_reads hx ht
  obtain ⟨ns, rfl, hinc⟩ := optional_of_reads hx hi
  simp only [List.length_cons, List.length_append] at hn
  obtain ⟨bs, rfl, hbody⟩ := body_of_reads hr (by omega) hin he
  rw [counted_eq]
  exact ⟨opening :: is ++ comma :: cs ++ comma' :: ns ++ closing :: bs, by simp,
    .alangSa hk ho hstart hc hcond hc' hinc hcl hbody⟩

/-- A KUNG after its keyword. -/
theorem kung_of_reads (hx : Sound expression .assignment) (hr : StatementSound n inLoop r) {keyword : Token}
    (hk : keyword.kind = .kung) {bound : Nat} {ts rest : List Token} {condition : Expr} {body : Stmt}
    {branches : List (Expr × Stmt)} {last : Option Stmt} {mid1 mid2 mid3 : List Token} (hn : ts.length ≤ n)
    (hb : ts.length ≤ bound) (h1 : Reads (readCondition expression) ts condition mid1)
    (h2 : Reads (readBody r) mid1 body mid2)
    (h3 : Reads (readAlternatives expression (readBody r) bound) mid2 branches mid3)
    (h4 : Reads (readOtherwise (readBody r)) mid3 last rest) (he : nextKind rest ≠ .eof) :
    ∃ taken, ts = taken ++ rest ∧
      Derives inLoop (.statement (.kung keyword condition body branches last)) (keyword :: taken) rest := by
  -- what is left out takes nothing, so no part of the statement stops at the end of the tokens
  have he3 : nextKind mid3 ≠ .eof := fun h => he (otherwise_at_end h4 h ▸ h)
  have he2 : nextKind mid2 ≠ .eof := fun h => he3 (alternatives_at_end h3 h ▸ h)
  obtain ⟨cs, rfl, hc⟩ := condition_of_reads hx h1
  rw [List.length_append] at hn hb
  obtain ⟨bs, rfl, hbody⟩ := body_of_reads hr (by omega) h2 he2
  rw [List.length_append] at hn hb
  obtain ⟨as, rfl, has⟩ := alternatives_of_reads hx hr bound _ _ _ (by omega) (by omega) h3 he3
  rw [List.length_append] at hn
  obtain ⟨os, rfl, hos⟩ := otherwise_of_reads hr (by omega) h4 he
  exact ⟨cs ++ bs ++ as ++ os, by simp, .kung hk hc (by simpa using hbody) has hos⟩

/-- A simple statement: a part and the end of the statement. -/
theorem ended_of_reads {α : Type} {part : TokenReader α} {build : α → Stmt} {ts rest : List Token} {s : Stmt}
    (h : Reads (part >>= fun a => endStatement >>= fun _ => pure (build a)) ts s rest) (he : nextKind rest ≠ .eof) :
    ∃ a stop, Reads part ts a (stop ++ rest) ∧ Terminator stop rest ∧ build a = s := by
  obtain ⟨a, mid, h1, h2⟩ := reads_bind.1 h
  obtain ⟨u, mid', h3, h4⟩ := reads_bind.1 h2
  obtain ⟨hs, rfl⟩ := reads_pure.1 h4
  obtain ⟨stop, rfl, hstop⟩ := terminator_of_reads h3 he
  exact ⟨a, stop, h1, hstop, hs⟩

theorem jump_of_reads {loops : Nat} {keyword : Token} {jump s : Stmt} {ts rest : List Token}
    (h : Reads (readJump loops keyword jump) ts s rest) (he : nextKind rest ≠ .eof) :
    0 < loops ∧ jump = s ∧ ∃ stop, ts = stop ++ rest ∧ Terminator stop rest := by
  rw [readJump] at h
  split at h
  · exact absurd h reads_stuckAt
  · next hl =>
    obtain ⟨u, mid, h1, h2⟩ := reads_bind.1 h
    obtain ⟨hs, rfl⟩ := reads_pure.1 h2
    exact ⟨Nat.pos_of_ne_zero hl, hs, terminator_of_reads h1 he⟩

/-- A BUHATA after its keyword. Its body ends before the newlines and MINTRAS. -/
theorem buhata_of_reads (hx : Sound expression .assignment) (hr : StatementSound n true r) {keyword : Token}
    (hk : keyword.kind = .buhata) {ts mid rest : List Token} {body s : Stmt} (hn : ts.length ≤ n)
    (h1 : Reads (readBody r) ts body mid)
    (h2 : Reads (skipNewlines >>= fun _ => expect .mintras .expectedWhile >>= fun _ => readCondition expression >>=
      fun condition => endStatement >>= fun _ => pure (.buhata keyword body condition)) mid s rest)
    (he : nextKind rest ≠ .eof) :
    ∃ taken, ts = taken ++ rest ∧ Derives inLoop (.statement s) (keyword :: taken) rest := by
  obtain ⟨word, mid', ha, hw, h3⟩ := reads_expect.1 (reads_skipNewlines.1 h2)
  obtain ⟨condition, stop, h4, hstop, rfl⟩ := ended_of_reads h3 he
  obtain ⟨cs, rfl, hc⟩ := condition_of_reads hx h4
  obtain ⟨blank, hbl, hts, -⟩ := afterNewlines_spec mid
  rw [ha] at hts
  -- MINTRAS comes next, so the body does not stop at the end of the tokens
  have hmid : nextKind mid ≠ .eof := by
    intro hm
    rw [afterNewlines_of_ne (by simp [hm])] at ha
    rw [ha, nextKind_cons, hw] at hm
    cases hm
  obtain ⟨bs, rfl, hbody⟩ := body_of_reads hr hn h1 hmid
  subst hts
  exact ⟨bs ++ blank ++ word :: cs ++ stop, by simp, .buhata hk (by simpa using hbody) hbl hw hc hstop⟩

/-- A block after its keyword. -/
theorem block_of_reads (hr : StatementSound n inLoop r) {keyword : Token} (hk : keyword.kind = .pundok) {bound : Nat}
    {ts rest : List Token} {body : List Stmt} (hn : ts.length ≤ n) (h : Reads (readBlock bound r) ts body rest) :
    ∃ taken, ts = taken ++ rest ∧ Derives inLoop (.statement (.pundok body)) (keyword :: taken) rest := by
  rw [readBlock, reads_expect] at h
  obtain ⟨opening, mid, rfl, ho, h1⟩ := h
  obtain ⟨items, mid', h2, h3⟩ := reads_bind.1 h1
  obtain ⟨closing, mid'', rfl, hc, h4⟩ := reads_expect.1 h3
  obtain ⟨rfl, rfl⟩ := reads_pure.1 h4
  rw [List.length_cons] at hn
  obtain ⟨taken, rfl, hd⟩ := items_of_reads hr bound _ _ _ (by omega) h2 (by simp [hc])
  exact ⟨opening :: taken ++ [closing], by simp, .pundok hk ho hd hc⟩

/-- A statement after its keyword, by cases on the keyword. -/
theorem keyword_of_reads {loops : Nat} {inner : TokenReader Stmt} (hx : Sound expression .assignment)
    (hr : StatementSound n (decide (0 < loops)) r) (hi : StatementSound n true inner) {keyword : Token}
    (hk : startsStatement keyword.kind = true) {bound : Nat} {ts rest : List Token} {s : Stmt} (hn : ts.length ≤ n)
    (hb : ts.length < bound) (h : Reads (readKeyword loops bound expression r inner keyword) ts s rest)
    (he : nextKind rest ≠ .eof) :
    ∃ taken, ts = taken ++ rest ∧ Derives (decide (0 < loops)) (.statement s) (keyword :: taken) rest := by
  rw [startsStatement_iff] at hk
  simp only [List.mem_cons, List.not_mem_nil, or_false] at hk
  rcases hk with hk | hk | hk | hk | hk | hk | hk | hk | hk | hk <;> simp only [readKeyword, hk] at h
  · obtain ⟨_, stop, h1, hstop, rfl⟩ := ended_of_reads h he
    obtain ⟨word, declared, taken, names, rfl, hw, hs, hnd, rfl⟩ := declaration_of_reads hx hb h1
    exact ⟨word :: taken ++ stop, by simp, .mugna hk hw hs hnd hstop⟩
  · obtain ⟨colon, mid, rfl, hc, h1⟩ := reads_expect.1 h
    obtain ⟨e, stop, h2, hstop, rfl⟩ := ended_of_reads h1 he
    obtain ⟨taken, rfl, hexpr⟩ := hx _ _ _ h2
    exact ⟨colon :: taken ++ stop, by simp, .ipakita hk hc hexpr hstop⟩
  · obtain ⟨colon, mid, rfl, hc, h1⟩ := reads_expect.1 h
    obtain ⟨names, stop, h2, hstop, rfl⟩ := ended_of_reads h1 he
    rw [List.length_cons] at hb
    obtain ⟨taken, rfl, hs⟩ := inputs_of_reads bound _ _ _ (by omega) h2
    exact ⟨colon :: taken ++ stop, by simp, .dawat hk hc hs hstop⟩
  · obtain ⟨condition, mid1, h1, h2⟩ := reads_bind.1 h
    obtain ⟨body, mid2, h3, h4⟩ := reads_bind.1 h2
    obtain ⟨branches, mid3, h5, h6⟩ := reads_bind.1 h4
    obtain ⟨last, mid4, h7, h8⟩ := reads_bind.1 h6
    obtain ⟨rfl, rfl⟩ := reads_pure.1 h8
    exact kung_of_reads hx hr hk hn (by omega) h1 h3 h5 h7 he
  · obtain ⟨condition, mid1, h1, h2⟩ := reads_bind.1 h
    obtain ⟨body, mid2, h3, h4⟩ := reads_bind.1 h2
    obtain ⟨rfl, rfl⟩ := reads_pure.1 h4
    obtain ⟨cs, rfl, hc⟩ := condition_of_reads hx h1
    rw [List.length_append] at hn
    obtain ⟨bs, rfl, hbody⟩ := body_of_reads hi (by omega) h3 he
    exact ⟨cs ++ bs, by simp, .mintras hk hc hbody⟩
  · obtain ⟨body, mid, h1, h2⟩ := reads_bind.1 h
    exact buhata_of_reads hx hi hk hn h1 h2 he
  · exact countedLoop_of_reads hx hi hk (by omega) hn h he
  · obtain ⟨hl, rfl, stop, rfl, hstop⟩ := jump_of_reads h he
    rw [decide_eq_true hl]
    exact ⟨stop, rfl, .hunong hk hstop⟩
  · obtain ⟨hl, rfl, stop, rfl, hstop⟩ := jump_of_reads h he
    rw [decide_eq_true hl]
    exact ⟨stop, rfl, .padayon hk hstop⟩
  · obtain ⟨body, mid, h1, h2⟩ := reads_bind.1 h
    obtain ⟨rfl, rfl⟩ := reads_pure.1 h2
    exact block_of_reads hr hk hn h1

end Sound

/-- By induction on the budget: the bodies of a statement are read within a
smaller one. -/
theorem readWithin_sound (budget : Nat) : ∀ loops n, 2 * n < budget →
    StatementSound n (decide (0 < loops)) (readWithin budget loops) := by
  induction budget with
  | zero => intro _ _ hb; exact absurd hb (by omega)
  | succ budget ih =>
    intro loops n hb ts s rest hn h he
    have hx : Sound (Expr.readWithin budget) .assignment := (readers_sound budget).2
    rw [readWithin, reads_bind] at h
    obtain ⟨o, mid, ho, h⟩ := h
    cases o with
    | some keyword =>
      obtain ⟨rfl, hk⟩ := reads_take?_some.1 ho
      rw [List.length_cons] at hn
      have hr := ih loops mid.length (by omega)
      have hi : StatementSound mid.length true (readWithin budget (loops + 1)) := ih (loops + 1) mid.length (by omega)
      obtain ⟨taken, rfl, hd⟩ := keyword_of_reads hx hr hi hk (Nat.le_refl _) (by omega) h he
      exact ⟨keyword :: taken, rfl, hd⟩
    | none =>
      obtain ⟨rfl, -⟩ := (reads_take?_none rfl).1 ho
      obtain ⟨e, stop, h1, hstop, rfl⟩ := ended_of_reads h he
      obtain ⟨taken, rfl, hexpr⟩ := hx _ _ _ h1
      exact ⟨taken ++ stop, by simp, .expr hexpr hstop⟩

/-! ## Every statement is read -/

/-- Where a statement starts. -/
theorem statement_starts {inLoop : Bool} {s : Stmt} {ts next : List Token} (h : Derives inLoop (.statement s) ts next) :
    ts ≠ [] ∧ nextKind ts ≠ .newline ∧ endsBlock (nextKind ts) = false := by
  cases h with
  | expr he _ =>
    obtain ⟨hs, hne⟩ := expression_starts he
    obtain ⟨-, -, -, hnl, -, hend⟩ := starters_ne hs
    rw [nextKind_append hne]
    exact ⟨by simp [hne], hnl, hend⟩
  | _ => simp_all [endsBlock]

/-- The readers take the tokens of a phrase whole, within a budget of twice
their number. -/
def Read (inLoop : Bool) (phrase : Phrase) (ts next : List Token) : Prop :=
  ∀ loops budget, decide (0 < loops) = inLoop → 2 * ts.length < budget →
    match phrase with
    | .statement s => Reads (readWithin budget loops) (ts ++ next) s next
    | .body s => Reads (readBody (readWithin budget loops)) (ts ++ next) s next
    | .alternatives branches => ∀ bound, ts.length ≤ bound →
      Reads (readAlternatives (Expr.readWithin budget) (readBody (readWithin budget loops)) bound) (ts ++ next)
        branches next
    | .otherwise last => Reads (readOtherwise (readBody (readWithin budget loops))) (ts ++ next) last next
    | .items statements => endsBlock (nextKind next) = true → ∀ bound, ts.length ≤ bound →
      Reads (readItems (readWithin budget loops) bound) (ts ++ next) statements next

/-- A statement with a keyword is read by the reader for its keyword. -/
theorem read_keyword {inLoop : Bool} {keyword : Token} (hk : startsStatement keyword.kind = true) {ts next : List Token}
    {s : Stmt} (h : ∀ loops budget, decide (0 < loops) = inLoop → 2 * ts.length < budget →
      Reads (readKeyword loops budget (Expr.readWithin budget) (readWithin budget loops) (readWithin budget (loops + 1))
        keyword) (ts ++ next) s next) :
    Read inLoop (.statement s) (keyword :: ts) next := by
  intro loops budget hl hb
  rw [List.length_cons] at hb
  obtain ⟨budget, rfl⟩ : ∃ b, budget = b + 1 := ⟨budget - 1, by omega⟩
  exact .bind (reads_take?_some.2 ⟨rfl, hk⟩) (h loops budget hl (by omega))

theorem Terminator.not_comma {stop next : List Token} (h : Terminator stop next) :
    nextKind (stop ++ next) ≠ .comma := by
  cases h with
  | line hk => simp [hk]
  | before hk =>
    simp only [List.mem_cons, List.not_mem_nil, or_false] at hk
    rcases hk with hk | hk <;> simp [hk]

theorem read_mugna {inLoop : Bool} {keyword word : Token} {declared : DataType} {ts stop next : List Token}
    {names : List (Token × Option Expr)} (hk : keyword.kind = .mugna) (hw : word.kind = typeWord declared)
    (hs : Separated (Declared declared) ts names) (hnd : (names.map (·.1.lexeme)).Nodup)
    (hstop : Terminator stop next) :
    Read inLoop (.statement (.mugna keyword declared names)) (keyword :: word :: ts ++ stop) next := by
  simp only [List.cons_append]
  refine read_keyword (by rw [hk]; rfl) fun loops budget _ hb => ?_
  simp only [List.length_cons, List.length_append] at hb
  simp only [readKeyword, hk, List.cons_append, List.append_assoc]
  have hd := reads_of_declaration keyword hw hs hnd hstop.follows hstop.not_comma (show 2 * ts.length ≤ budget by omega)
    (show ts.length ≤ budget by omega)
  exact .bind hd (.bind (reads_of_terminator hstop) (reads_pure.2 ⟨rfl, rfl⟩))

theorem read_ipakita {inLoop : Bool} {keyword colon : Token} {ts stop next : List Token} {e : Expr}
    (hk : keyword.kind = .ipakita) (hc : colon.kind = .colon) (he : Expression .assignment ts e)
    (hstop : Terminator stop next) :
    Read inLoop (.statement (.ipakita keyword e)) (keyword :: colon :: ts ++ stop) next := by
  simp only [List.cons_append]
  refine read_keyword (by rw [hk]; rfl) fun loops budget _ hb => ?_
  simp only [List.length_cons, List.length_append] at hb
  simp only [readKeyword, hk, List.cons_append, List.append_assoc]
  have hx := reads_of_expression he hstop.follows (show 2 * ts.length ≤ budget by omega)
  refine reads_expect.2 ⟨colon, _, rfl, hc, ?_⟩
  exact .bind hx (.bind (reads_of_terminator hstop) (reads_pure.2 ⟨rfl, rfl⟩))

theorem read_dawat {inLoop : Bool} {keyword colon : Token} {ts stop next names : List Token}
    (hk : keyword.kind = .dawat) (hc : colon.kind = .colon) (hs : Separated Name ts names)
    (hstop : Terminator stop next) :
    Read inLoop (.statement (.dawat keyword names)) (keyword :: colon :: ts ++ stop) next := by
  simp only [List.cons_append]
  refine read_keyword (by rw [hk]; rfl) fun loops budget _ hb => ?_
  simp only [List.length_cons, List.length_append] at hb
  simp only [readKeyword, hk, List.cons_append, List.append_assoc]
  have hx := reads_of_inputs hs hstop.not_comma budget (by omega)
  refine reads_expect.2 ⟨colon, _, rfl, hc, ?_⟩
  exact .bind hx (.bind (reads_of_terminator hstop) (reads_pure.2 ⟨rfl, rfl⟩))

theorem read_expr {inLoop : Bool} {ts stop next : List Token} {e : Expr} (he : Expression .assignment ts e)
    (hstop : Terminator stop next) : Read inLoop (.statement (.expr e)) (ts ++ stop) next := by
  intro loops budget _ hb
  rw [List.length_append] at hb
  obtain ⟨budget, rfl⟩ : ∃ b, budget = b + 1 := ⟨budget - 1, by omega⟩
  obtain ⟨hs, hne⟩ := expression_starts he
  obtain ⟨-, -, -, -, hk, -⟩ := starters_ne hs
  rw [List.append_assoc]
  refine .bind ((reads_take?_none rfl).2 ⟨rfl, by rw [nextKind_append hne]; exact hk⟩) ?_
  have hx := reads_of_expression he hstop.follows (show 2 * ts.length ≤ budget by omega)
  exact .bind hx (.bind (reads_of_terminator hstop) (reads_pure.2 ⟨rfl, rfl⟩))

theorem read_jump {keyword : Token} {jump : Stmt} (hk : startsStatement keyword.kind = true)
    (hj : ∀ loops bound expression statement inLoop, readKeyword loops bound expression statement inLoop keyword =
      readJump loops keyword jump) {stop next : List Token} (hstop : Terminator stop next) :
    Read true (.statement jump) (keyword :: stop) next := by
  refine read_keyword hk fun loops budget hl _ => ?_
  rw [hj, readJump, if_neg (by simp only [decide_eq_true_eq] at hl; omega)]
  exact .bind (reads_of_terminator hstop) (reads_pure.2 ⟨rfl, rfl⟩)

theorem read_pundok {inLoop : Bool} {keyword opening closing : Token} {ts next : List Token} {body : List Stmt}
    (hk : keyword.kind = .pundok) (ho : opening.kind = .leftBrace) (h : Read inLoop (.items body) ts (closing :: next))
    (hc : closing.kind = .rightBrace) :
    Read inLoop (.statement (.pundok body)) (keyword :: opening :: ts ++ [closing]) next := by
  simp only [List.cons_append]
  refine read_keyword (by rw [hk]; rfl) fun loops budget hl hb => ?_
  simp only [List.length_cons, List.length_append, List.length_nil] at hb
  simp only [readKeyword, hk, List.cons_append, List.append_assoc]
  have hi := h loops budget hl (by omega) (by simp [hc, endsBlock]) budget (by omega)
  refine .bind (reads_expect.2 ⟨opening, _, rfl, ho, ?_⟩) (reads_pure.2 ⟨rfl, rfl⟩)
  exact .bind hi (reads_expect.2 ⟨closing, next, rfl, hc, reads_pure.2 ⟨rfl, rfl⟩⟩)

theorem read_kung {inLoop : Bool} {keyword : Token} {cs bs as os next : List Token} {condition : Expr} {body : Stmt}
    {branches : List (Expr × Stmt)} {last : Option Stmt} (hk : keyword.kind = .kung) (hc : Condition cs condition)
    (hb : Read inLoop (.body body) bs (as ++ os ++ next)) (ha : Read inLoop (.alternatives branches) as (os ++ next))
    (ho : Read inLoop (.otherwise last) os next) :
    Read inLoop (.statement (.kung keyword condition body branches last)) (keyword :: cs ++ bs ++ as ++ os) next := by
  simp only [List.cons_append]
  refine read_keyword (by rw [hk]; rfl) fun loops budget hl hn => ?_
  simp only [List.length_append] at hn
  simp only [readKeyword, hk, List.append_assoc]
  have h1 := hb loops budget hl (by omega)
  have h2 := ha loops budget hl (by omega) budget (by omega)
  have h3 := ho loops budget hl (by omega)
  rw [List.append_assoc] at h1
  exact .bind (reads_of_condition hc (by omega)) (.bind h1 (.bind h2 (.bind h3 (reads_pure.2 ⟨rfl, rfl⟩))))

theorem read_mintras {inLoop : Bool} {keyword : Token} {cs bs next : List Token} {condition : Expr} {body : Stmt}
    (hk : keyword.kind = .mintras) (hc : Condition cs condition) (hb : Read true (.body body) bs next) :
    Read inLoop (.statement (.mintras keyword condition body)) (keyword :: cs ++ bs) next := by
  simp only [List.cons_append]
  refine read_keyword (by rw [hk]; rfl) fun loops budget _ hn => ?_
  simp only [List.length_append] at hn
  simp only [readKeyword, hk, List.append_assoc]
  have h1 := hb (loops + 1) budget (by simp) (by omega)
  exact .bind (reads_of_condition hc (by omega)) (.bind h1 (reads_pure.2 ⟨rfl, rfl⟩))

theorem read_buhata {inLoop : Bool} {keyword word : Token} {bs blank cs stop next : List Token} {condition : Expr}
    {body : Stmt} (hk : keyword.kind = .buhata) (hb : Read true (.body body) bs (blank ++ word :: cs ++ stop ++ next))
    (hbl : Blank blank) (hw : word.kind = .mintras) (hc : Condition cs condition) (hstop : Terminator stop next) :
    Read inLoop (.statement (.buhata keyword body condition)) (keyword :: bs ++ blank ++ word :: cs ++ stop) next := by
  simp only [List.cons_append, List.append_assoc]
  refine read_keyword (by rw [hk]; rfl) fun loops budget _ hn => ?_
  simp only [List.length_append, List.length_cons] at hn
  simp only [readKeyword, hk, List.append_assoc, List.cons_append]
  have h1 := hb (loops + 1) budget (by simp) (by omega)
  simp only [List.append_assoc, List.cons_append] at h1
  refine .bind h1 (reads_skipNewlines.2 ?_)
  rw [afterNewlines_append hbl (by simp [hw])]
  refine reads_expect.2 ⟨word, _, rfl, hw, ?_⟩
  exact .bind (reads_of_condition hc (by omega)) (.bind (reads_of_terminator hstop) (reads_pure.2 ⟨rfl, rfl⟩))

theorem read_alangSa {inLoop : Bool} {keyword opening comma comma' closing : Token} {is cs ns bs next : List Token}
    {start : Option Stmt} {condition increment : Option Expr} {body : Stmt} (hk : keyword.kind = .alangSa)
    (ho : opening.kind = .leftParen) (hs : Start is start) (hc : comma.kind = .comma) (ht : Optional cs condition)
    (hc' : comma'.kind = .comma) (hi : Optional ns increment) (hcl : closing.kind = .rightParen)
    (hb : Read true (.body body) bs next) :
    Read inLoop (.statement (counted keyword start condition increment body))
      (keyword :: opening :: is ++ comma :: cs ++ comma' :: ns ++ closing :: bs) next := by
  simp only [List.cons_append, List.append_assoc]
  refine read_keyword (by rw [hk]; rfl) fun loops budget _ hn => ?_
  simp only [List.length_append, List.length_cons] at hn
  simp only [readKeyword, hk, List.append_assoc, List.cons_append, readCountedLoop]
  refine reads_expect.2 ⟨opening, _, rfl, ho, .bind (reads_of_start hs hc (by omega) (by omega)) ?_⟩
  refine reads_expect.2 ⟨comma, _, rfl, hc, reads_bind.2 ⟨condition, comma' :: (ns ++ closing :: (bs ++ next)), ?_, ?_⟩⟩
  · rw [← hc']
    exact reads_of_optional ht (by simp [hc']) (by omega)
  refine reads_expect.2 ⟨comma', _, rfl, hc', reads_bind.2 ⟨increment, closing :: (bs ++ next), ?_, ?_⟩⟩
  · rw [← hcl]
    exact reads_of_optional hi (by simp [hcl]) (by omega)
  refine reads_expect.2 ⟨closing, _, rfl, hcl, .bind (hb (loops + 1) budget (by simp) (by omega)) ?_⟩
  exact reads_pure.2 ⟨counted_eq keyword start condition increment body, rfl⟩

/-- By induction on the derivation. -/
theorem derives_read {inLoop : Bool} {phrase : Phrase} {ts next : List Token} (h : Derives inLoop phrase ts next) :
    Read inLoop phrase ts next := by
  induction h with
  | mugna hk hw hs hnd hstop => exact read_mugna hk hw hs hnd hstop
  | ipakita hk hc he hstop => exact read_ipakita hk hc he hstop
  | dawat hk hc hs hstop => exact read_dawat hk hc hs hstop
  | hunong hk hstop => exact read_jump (by rw [hk]; rfl) (fun _ _ _ _ _ => by simp only [readKeyword, hk]) hstop
  | padayon hk hstop => exact read_jump (by rw [hk]; rfl) (fun _ _ _ _ _ => by simp only [readKeyword, hk]) hstop
  | expr he hstop => exact read_expr he hstop
  | pundok hk ho _ hc ih => exact read_pundok hk ho ih hc
  | kung hk hc _ _ _ ihb iha iho => exact read_kung hk hc ihb iha iho
  | mintras hk hc _ ih => exact read_mintras hk hc ih
  | buhata hk _ hbl hw hc hstop ih => exact read_buhata hk ih hbl hw hc hstop
  | alangSa hk ho hs hc ht hc' hi hcl _ ih => exact read_alangSa hk ho hs hc ht hc' hi hcl ih
  | @body inLoop blank ts next s hbl hd ih =>
    intro loops budget hl hb
    rw [List.length_append] at hb
    obtain ⟨hne, hnl, -⟩ := statement_starts hd
    refine reads_skipNewlines.2 ?_
    rw [List.append_assoc, afterNewlines_append hbl (by rw [nextKind_append hne]; exact hnl)]
    exact ih loops budget hl (by omega)
  | @noAlternative inLoop next hn =>
    intro loops budget _ _ bound _
    rw [leads_iff (by decide) (by decide)] at hn
    cases bound with
    | zero => exact reads_pure.2 ⟨rfl, rfl⟩
    | succ bound => exact .bind ((reads_takePast?_none (by decide)).2 ⟨rfl, hn⟩) (reads_pure.2 ⟨rfl, rfl⟩)
  | @alternative inLoop word blank cs bs as next condition body branches hbl hw hc _ _ ihb iha =>
    intro loops budget hl hb bound hn
    simp only [List.length_append, List.length_cons] at hb hn
    obtain ⟨bound, rfl⟩ : ∃ b, bound = b + 1 := ⟨bound - 1, by omega⟩
    simp only [List.append_assoc, List.cons_append]
    have h1 := ihb loops budget hl (by omega)
    have h2 := iha loops budget hl (by omega) bound (by omega)
    refine .bind (reads_takePast?_some.2 ⟨afterNewlines_append hbl (by simp [hw]), hw⟩) ?_
    exact .bind (reads_of_condition hc (by omega)) (.bind h1 (.bind h2 (reads_pure.2 ⟨rfl, rfl⟩)))
  | @noOtherwise inLoop next hn =>
    intro loops budget _ _
    rw [leads_iff (by decide) (by decide)] at hn
    exact .bind ((reads_takePast?_none (by decide)).2 ⟨rfl, hn⟩) (reads_pure.2 ⟨rfl, rfl⟩)
  | @otherwise inLoop word blank bs next body hbl hw _ ih =>
    intro loops budget hl hb
    simp only [List.length_append, List.length_cons] at hb
    simp only [List.append_assoc, List.cons_append]
    have h1 := ih loops budget hl (by omega)
    refine .bind (reads_takePast?_some.2 ⟨afterNewlines_append hbl (by simp [hw]), hw⟩) ?_
    exact .bind h1 (reads_pure.2 ⟨rfl, rfl⟩)
  | noItem =>
    intro loops budget _ _ he bound _
    cases bound with
    | zero => exact reads_pure.2 ⟨rfl, rfl⟩
    | succ bound => exact reads_readItems.2 (.inl ⟨he, rfl, rfl⟩)
  | newline hk _ ih =>
    intro loops budget hl hb he bound hn
    rw [List.length_cons] at hb hn
    obtain ⟨bound, rfl⟩ : ∃ b, bound = b + 1 := ⟨bound - 1, by omega⟩
    exact reads_readItems.2 (.inr (.inl ⟨_, _, rfl, hk, ih loops budget hl (by omega) he bound (by omega)⟩))
  | @item inLoop ts more next s statements hd _ ihs ihm =>
    intro loops budget hl hb he bound hn
    rw [List.length_append] at hb hn
    obtain ⟨hne, hnl, hend⟩ := statement_starts hd
    -- a statement takes a token, so the bound is enough for the items behind it
    have hlen := List.length_pos_iff.2 hne
    obtain ⟨bound, rfl⟩ : ∃ b, bound = b + 1 := ⟨bound - 1, by omega⟩
    rw [List.append_assoc]
    refine reads_readItems.2 (.inr (.inr ⟨?_, ?_, s, more ++ next, statements, ?_, ?_, rfl⟩))
    · rw [nextKind_append hne]
      exact hend
    · rw [nextKind_append hne]
      exact hnl
    · exact ihs loops budget hl (by omega)
    · exact ihm loops budget hl (by omega) he bound (by omega)

end BisayaPlus.Grammar
