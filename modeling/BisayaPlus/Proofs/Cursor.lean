import BisayaPlus.Proofs.Budget
import BisayaPlus.Proofs.ProgramGrammar
/-!
# Walking over tokens with a cursor

The tokens of a program can also be read in place: a cursor moves over them,
looks back at the token it just passed, counts the loops around it, and unwinds
from a fault to the statement that is dropped. Such a walk could step out of the
tokens, look back before the first of them, go round without moving, or never
end. Here a walk that does any of this is lost. A walk that follows a reader is
not: it gives what the reader gives, at the tokens that the reader leaves, with
the loops it started with.
-/

set_option autoImplicit false

namespace BisayaPlus

open TokenReader Grammar

/-- Where a walk stands: the place of its next token, the number of loops around
it, and the complaints so far. -/
structure Cursor where
  place : Nat
  loops : Nat
  noted : List Complaint

/-- How a walk ends: with a value, unwound from a fault, or lost. -/
inductive Walked (α : Type) where
  | done (value : α) (c : Cursor)
  | unwound (c : Cursor)
  | lost

structure Walk (α : Type) where
  run : List Token → Cursor → Walked α

namespace Walk

variable {α β : Type}

instance : Monad Walk where
  pure a := ⟨fun _ c => .done a c⟩
  bind x f := ⟨fun tokens c =>
    match x.run tokens c with
    | .done a c => (f a).run tokens c
    | .unwound c => .unwound c
    | .lost => .lost⟩

/-! ## Steps -/

def lost : Walk α where
  run _ _ := .lost

/-- The next token. Past the last one the walk is lost. -/
def peek : Walk Token where
  run tokens c :=
    match tokens[c.place]? with
    | some t => .done t c
    | none => .lost

/-- The token before the cursor. At the first one the walk is lost. -/
def previous : Walk Token where
  run tokens c :=
    match c.place with
    | 0 => .lost
    | place + 1 =>
      match tokens[place]? with
      | some t => .done t c
      | none => .lost

/-- Moves the cursor to a place, which has to be one of a token. -/
def goTo (place : Nat) : Walk PUnit where
  run tokens c := if place < tokens.length then .done ⟨⟩ { c with place := place } else .lost

def here : Walk Nat where
  run _ c := .done c.place c

def forward : Walk PUnit := do
  goTo ((← here) + 1)

def note (fault : SyntaxFault) (token : Token) : Walk PUnit where
  run _ c := .done ⟨⟩ { c with noted := c.noted ++ [⟨fault, token⟩] }

/-- Notes a complaint and unwinds. -/
def fatal (fault : SyntaxFault) (token : Token) : Walk α where
  run _ c := .unwound { c with noted := c.noted ++ [⟨fault, token⟩] }

/-- Passes the next token, unless it is the end, and looks back. -/
def advance : Walk Token := do
  let t ← peek
  if t.kind = .eof then previous
  else do
    forward
    previous

/-- Passes the next token if its kind is one of these. The end is never passed. -/
def taken? (wanted : Kind → Bool) : Walk (Option Token) := do
  let t ← peek
  if t.kind ≠ .eof ∧ wanted t.kind then do
    forward
    let t ← previous
    pure (some t)
  else pure none

/-- Passes the next token, which has to be of this kind. -/
def consume (kind : Kind) (fault : SyntaxFault) : Walk Token := do
  let t ← peek
  if t.kind ≠ .eof ∧ t.kind = kind then advance else fatal fault t

def skipNewlines : Nat → Walk PUnit
  | 0 => lost
  | bound + 1 => do
    match ← taken? (· == .newline) with
    | some _ => skipNewlines bound
    | none => pure ⟨⟩

/-- Passes newlines and a token of this kind. If it is not there, the cursor
goes back. -/
def lookPast (bound : Nat) (kind : Kind) : Walk (Option Token) := do
  let start ← here
  skipNewlines bound
  match ← taken? (· == kind) with
  | some t => pure (some t)
  | none => do
    goTo start
    pure none

/-- A round of a walk that goes round, which has to move the cursor forward. -/
def onward (x : Walk α) : Walk α := do
  let start ← here
  let a ← x
  if start < (← here) then pure a else lost

/-! ## Loops and faults -/

/-- Counts one more loop for a part of the walk, however that part ends. -/
def aroundLoop (x : Walk α) : Walk α where
  run tokens c :=
    match x.run tokens { c with loops := c.loops + 1 } with
    | .done a c => .done a { c with loops := c.loops - 1 }
    | .unwound c => .unwound { c with loops := c.loops - 1 }
    | .lost => .lost

def countLoops : Walk Nat where
  run _ c := .done c.loops c

/-- The token before the cursor is a newline. -/
def behindNewline : Walk Bool := do
  if (← here) = 0 then pure false
  else do
    let t ← previous
    pure (t.kind == .newline)

/-- Moves on to the next line or statement, or to an end. -/
def toNextLine : Nat → Walk PUnit
  | 0 => lost
  | bound + 1 => do
    let t ← peek
    if t.kind = .eof then pure ⟨⟩
    else if ← behindNewline then pure ⟨⟩
    else if startsStatement t.kind || endsBlock t.kind then pure ⟨⟩
    else do
      let _ ← advance
      toNextLine bound

/-- Where the walk goes on after a fault. The end of a block stays for the block
around it. -/
def synchronize (bound : Nat) : Walk PUnit := do
  let t ← peek
  if t.kind = .katapusan ∨ t.kind = .rightBrace then toNextLine bound
  else do
    let _ ← advance
    toNextLine bound

/-- A part of the walk, or nothing if it unwinds. -/
def recover (bound : Nat) (x : Walk α) : Walk (Option α) where
  run tokens c :=
    match x.run tokens c with
    | .done a c => .done (some a) c
    | .unwound c => (synchronize bound >>= fun _ => pure none : Walk (Option α)).run tokens c
    | .lost => .lost

/-! ## Following a reader -/

/-- A walk that started with these loops and complaints ended as the reading
did, in front of the tokens that the reading left. -/
inductive Matches (tokens : List Token) (loops : Nat) (noted : List Complaint) : Reading α → Walked α → Prop where
  | read {a : α} {rest : List Token} {new after : List Complaint} {place : Nat} : rest ≠ [] →
      tokens.drop place = rest → after = noted ++ new →
      Matches tokens loops noted (.read a rest new) (.done a ⟨place, loops, after⟩)
  | stuck {complaint : Complaint} {rest : List Token} {new after : List Complaint} {place : Nat} : rest ≠ [] →
      tokens.drop place = rest → after = noted ++ new ++ [complaint] →
      Matches tokens loops noted (.stuck complaint rest new) (.unwound ⟨place, loops, after⟩)

/-- In front of these tokens, the walk follows the reader. -/
def FollowsOn (loops : Nat) (x : Walk α) (r : TokenReader α) (ts : List Token) : Prop :=
  ∀ tokens place noted, tokens.drop place = ts →
    Matches tokens loops noted (r.run ts) (x.run tokens ⟨place, loops, noted⟩)

/-- The walk follows the reader in front of at most `n` tokens, of which only
the last is an end. -/
def Follows (n loops : Nat) (x : Walk α) (r : TokenReader α) : Prop :=
  ∀ ts, EndsOnce ts → ts.length ≤ n → FollowsOn loops x r ts

variable {n m loops : Nat} {x : Walk α} {r : TokenReader α} {f : α → Walk β} {g : α → TokenReader β}
  {ts rest : List Token} {t : Token}

theorem run_bind (x : Walk α) (f : α → Walk β) (tokens : List Token) (c : Cursor) :
    (x >>= f).run tokens c =
      match x.run tokens c with
      | .done a c => (f a).run tokens c
      | .unwound c => .unwound c
      | .lost => .lost := rfl

theorem Matches.after {tokens : List Token} {noted earlier : List Complaint} {reading : Reading α} {walked : Walked α}
    (h : Matches tokens loops (noted ++ earlier) reading walked) :
    Matches tokens loops noted (reading.after earlier) walked := by
  cases h with
  | read hne hdrop hafter => exact .read hne hdrop (by rw [hafter, List.append_assoc])
  | stuck hne hdrop hafter => exact .stuck hne hdrop (by rw [hafter]; simp only [List.append_assoc])

theorem FollowsOn.bind (h : FollowsOn loops x r ts)
    (hf : ∀ a rest noted, r.run ts = .read a rest noted → rest ≠ [] → FollowsOn loops (f a) (g a) rest) :
    FollowsOn loops (x >>= f) (r >>= g) ts := by
  intro tokens place noted hdrop
  have hx := h tokens place noted hdrop
  rw [run_bind, TokenReader.run_bind]
  cases hr : r.run ts with
  | stuck complaint rest new =>
    rw [hr] at hx
    generalize x.run tokens ⟨place, loops, noted⟩ = walked at hx
    cases hx with
    | stuck hne hrest hafter => exact .stuck hne hrest hafter
  | read a rest new =>
    rw [hr] at hx
    generalize x.run tokens ⟨place, loops, noted⟩ = walked at hx
    cases hx with
    | @read _ _ _ _ place' hne hrest hafter =>
      subst hafter
      -- the second part finds the complaints of the first noted already
      exact (hf a rest new hr hne tokens place' (noted ++ new) hrest).after

theorem Follows.mono (h : Follows n loops x r) (hm : m ≤ n) : Follows m loops x r :=
  fun ts he hts => h ts he (Nat.le_trans hts hm)

/-- What a reader leaves of such tokens, unless it takes them all. -/
theorem endsOnce_rest (h : EndsOnce ts) (hs : rest <:+ ts) (hne : rest ≠ []) : EndsOnce rest := by
  obtain ⟨taken, rfl⟩ := hs
  exact h.of_append hne

theorem endsOnce_of_run (h : EndsOnce ts) {a : α} {noted : List Complaint} (hr : r.run ts = .read a rest noted)
    (hne : rest ≠ []) : EndsOnce rest := by
  have hs := r.rest_suffix ts
  rw [hr] at hs
  exact endsOnce_rest h hs hne

theorem Follows.bind (h : Follows n loops x r) (hf : ∀ a, Follows n loops (f a) (g a)) :
    Follows n loops (x >>= f) (r >>= g) := by
  intro ts he hts
  refine (h ts he hts).bind fun a rest noted hr hne => ?_
  exact hf a rest (endsOnce_of_run he hr hne) (Nat.le_trans (length_le_of_run hr) hts)

theorem endsOnce_ne_nil (h : EndsOnce ts) : ts ≠ [] := by
  obtain ⟨body, last, rfl, -⟩ := h
  simp

theorem follows_pure (a : α) : Follows n loops (pure a) (pure a) :=
  fun _ he _ _ _ _ hdrop => .read (endsOnce_ne_nil he) hdrop (List.append_nil _).symm

/-- There is at least the end. -/
theorem follows_zero (x : Walk α) (r : TokenReader α) : Follows 0 loops x r := by
  intro ts he hts
  have hpos := List.length_pos_iff.2 (endsOnce_ne_nil he)
  omega

theorem follows_fatal (fault : SyntaxFault) (t : Token) :
    Follows n loops (fatal fault t : Walk α) (stuckAt fault t) :=
  fun _ he _ _ _ _ hdrop => .stuck (endsOnce_ne_nil he) hdrop (by rw [List.append_nil])

theorem follows_note (fault : SyntaxFault) (t : Token) :
    Follows n loops (note fault t) (TokenReader.note fault t) :=
  fun _ he _ _ _ _ hdrop => .read (endsOnce_ne_nil he) hdrop rfl

/-! ## Single steps -/

theorem get_of_drop {tokens : List Token} {place : Nat} (h : tokens.drop place = t :: rest) :
    tokens[place]? = some t ∧ tokens.drop (place + 1) = rest := by
  constructor
  · rw [← List.head?_drop, h]
    rfl
  · rw [← List.drop_drop, h]
    rfl

section Steps

variable {tokens : List Token} {place : Nat} {c : Cursor}

theorem run_peek (f : Token → Walk β) (h : tokens.drop c.place = t :: rest) :
    (peek >>= f).run tokens c = (f t).run tokens c := by
  simp only [run_bind, peek, (get_of_drop h).1]

theorem lt_length_of_drop (hdrop : tokens.drop place = ts) (hne : ts ≠ []) : place < tokens.length := by
  refine Nat.lt_of_not_le fun hge => hne ?_
  rw [← hdrop, List.drop_eq_nil_of_le hge]

theorem place_lt_of_drop {place' : Nat} (h : (tokens.drop place').length < (tokens.drop place).length) :
    place < place' := by
  rw [List.length_drop, List.length_drop] at h
  omega

/-- A place with tokens in front of it is one to go to. -/
theorem run_goTo (c : Cursor) (h : tokens.drop place = ts) (hne : ts ≠ []) :
    (goTo place).run tokens c = .done ⟨⟩ { c with place := place } := by
  simp only [goTo, lt_length_of_drop h hne, if_true]

/-- A step over a token that is not the last. -/
theorem run_forward (h : tokens.drop c.place = t :: rest) (hne : rest ≠ []) :
    forward.run tokens c = .done ⟨⟩ { c with place := c.place + 1 } :=
  run_goTo c (get_of_drop h).2 hne

/-- The look back at the token that was passed. -/
theorem run_previous {noted : List Complaint} (h : tokens.drop place = t :: rest) :
    previous.run tokens ⟨place + 1, loops, noted⟩ = .done t ⟨place + 1, loops, noted⟩ := by
  simp only [previous, (get_of_drop h).1]

theorem run_advance (h : tokens.drop c.place = t :: rest) (hk : t.kind ≠ .eof) (hne : rest ≠ []) :
    advance.run tokens c = .done t { c with place := c.place + 1 } := by
  rw [advance, run_peek _ h, if_neg hk, run_bind, run_forward h hne]
  exact run_previous h

variable {wanted : Kind → Bool}

theorem run_taken?_some (h : tokens.drop c.place = t :: rest) (hk : t.kind ≠ .eof) (hw : wanted t.kind = true)
    (hne : rest ≠ []) : (taken? wanted).run tokens c = .done (some t) { c with place := c.place + 1 } := by
  rw [taken?, run_peek _ h, if_pos ⟨hk, hw⟩, run_bind, run_forward h hne]
  dsimp only
  rw [run_bind, run_previous h]
  rfl

theorem run_taken?_none (h : tokens.drop c.place = t :: rest) (hw : wanted t.kind = false) :
    (taken? wanted).run tokens c = .done none c := by
  rw [taken?, run_peek _ h, if_neg (by simp [hw])]
  rfl

end Steps

theorem followsOn_taken? (wanted : Kind → Bool) (hw : wanted .eof = false) (he : EndsOnce ts) :
    FollowsOn loops (taken? wanted) (take? wanted) ts := by
  intro tokens place noted hdrop
  cases ts with
  | nil => exact absurd rfl (endsOnce_ne_nil he)
  | cons t rest =>
    cases hwanted : wanted t.kind with
    | false =>
      rw [run_taken?_none hdrop hwanted]
      simp only [take?, hwanted, Bool.false_eq_true, if_false]
      exact .read (by simp) hdrop (List.append_nil _).symm
    | true =>
      rcases he.cons with ⟨heof, -⟩ | ⟨hne, hrest⟩
      · rw [heof, hw] at hwanted
        cases hwanted
      · rw [run_taken?_some hdrop hne hwanted (endsOnce_ne_nil hrest)]
        simp only [take?, hwanted, if_true]
        exact .read (endsOnce_ne_nil hrest) (get_of_drop hdrop).2 (List.append_nil _).symm

theorem follows_taken? (wanted : Kind → Bool) {f : Option Token → Walk β} {g : Option Token → TokenReader β}
    (hw : wanted .eof = false) (hn : Follows n loops (f none) (g none))
    (hs : ∀ t, wanted t.kind = true → ∀ m < n, Follows m loops (f (some t)) (g (some t))) :
    Follows n loops (taken? wanted >>= f) (take? wanted >>= g) := by
  intro ts he hts
  refine (followsOn_taken? wanted hw he).bind fun o rest noted hr hne => ?_
  have hrest := endsOnce_of_run he hr hne
  cases ts with
  | nil => exact absurd rfl (endsOnce_ne_nil he)
  | cons t ts =>
    simp only [take?] at hr
    split at hr <;> obtain ⟨rfl, rfl, -⟩ := Reading.read.inj hr
    · next hwanted => exact hs t hwanted ts.length hts ts hrest (Nat.le_refl _)
    · exact hn _ he hts

theorem followsOn_consume {kind : Kind} {fault : SyntaxFault} (hk : kind ≠ .eof) (he : EndsOnce ts) :
    FollowsOn loops (consume kind fault) (expect kind fault) ts := by
  intro tokens place noted hdrop
  cases ts with
  | nil => exact absurd rfl (endsOnce_ne_nil he)
  | cons t rest =>
    rw [consume, run_peek _ hdrop]
    by_cases hkind : t.kind = kind
    · rcases he.cons with ⟨heof, -⟩ | ⟨hne, hrest⟩
      · exact absurd (hkind.symm.trans heof) hk
      · rw [if_pos ⟨hne, hkind⟩, run_advance hdrop hne (endsOnce_ne_nil hrest)]
        simp only [expect, hkind, if_true]
        exact .read (endsOnce_ne_nil hrest) (get_of_drop hdrop).2 (List.append_nil _).symm
    · rw [if_neg fun h => hkind h.2]
      simp only [expect, hkind, if_false]
      exact .stuck (by simp) hdrop (by rw [List.append_nil])

theorem follows_consume {kind : Kind} {fault : SyntaxFault} {f : Token → Walk β} {g : Token → TokenReader β}
    (hk : kind ≠ .eof) (h : ∀ t, t.kind = kind → ∀ m < n, Follows m loops (f t) (g t)) :
    Follows n loops (consume kind fault >>= f) (expect kind fault >>= g) := by
  intro ts he hts
  refine (followsOn_consume hk he).bind fun t' rest noted hr hne => ?_
  have hrest := endsOnce_of_run he hr hne
  cases ts with
  | nil => exact absurd rfl (endsOnce_ne_nil he)
  | cons t ts =>
    simp only [expect] at hr
    split at hr
    · next hkind =>
      obtain ⟨rfl, rfl, -⟩ := Reading.read.inj hr
      exact h t hkind ts.length hts ts hrest (Nat.le_refl _)
    · cases hr

theorem follows_expected {kind : Kind} {fault : SyntaxFault} (hk : kind ≠ .eof) :
    Follows n loops (consume kind fault) (expect kind fault) :=
  fun _ he _ => followsOn_consume hk he

theorem follows_peek {f : Token → Walk β} {g : Token → TokenReader β}
    (h : ∀ t rest, EndsOnce (t :: rest) → (t :: rest).length ≤ n → FollowsOn loops (f t) (g t) (t :: rest)) :
    Follows n loops (peek >>= f) (TokenReader.peek >>= g) := by
  intro ts he hts tokens place noted hdrop
  cases ts with
  | nil => exact absurd rfl (endsOnce_ne_nil he)
  | cons t rest =>
    rw [run_peek _ hdrop, TokenReader.run_peek]
    exact h t rest he hts tokens place noted hdrop

theorem followsOn_fatal (fault : SyntaxFault) :
    FollowsOn loops (fatal fault t : Walk α) (stuckHere fault) (t :: rest) :=
  fun _ _ _ hdrop => .stuck (by simp) hdrop (by rw [List.append_nil]; rfl)

theorem followsOn_advance {f : Token → Walk β} {g : PUnit → TokenReader β} (he : EndsOnce (t :: rest))
    (hk : t.kind ≠ .eof) (h : EndsOnce rest → FollowsOn loops (f t) (g ⟨⟩) rest) :
    FollowsOn loops (advance >>= f) (skip >>= g) (t :: rest) := by
  intro tokens place noted hdrop
  rcases he.cons with ⟨heof, -⟩ | ⟨-, hrest⟩
  · exact absurd heof hk
  · rw [run_bind, run_advance hdrop hk (endsOnce_ne_nil hrest), run_skip]
    exact h hrest tokens (place + 1) noted (get_of_drop hdrop).2

theorem follows_noting {c : Prop} [Decidable c] {fault : SyntaxFault} {f : PUnit → Walk β} {g : PUnit → TokenReader β}
    (h : ∀ u, Follows n loops (f u) (g u)) :
    Follows n loops (if c then note fault t >>= f else f ⟨⟩) (if c then TokenReader.note fault t >>= g else g ⟨⟩) := by
  split
  · exact (follows_note fault t).bind h
  · exact h ⟨⟩

/-- A reader that takes a token moves the cursor. -/
theorem FollowsOn.onward (h : FollowsOn loops x r ts)
    (hlt : ∀ a rest noted, r.run ts = .read a rest noted → rest.length < ts.length) :
    FollowsOn loops (onward x) r ts := by
  intro tokens place noted hdrop
  have hx := h tokens place noted hdrop
  have honward : (Walk.onward x).run tokens ⟨place, loops, noted⟩ =
      (x >>= fun a => here >>= fun stop => if place < stop then pure a else lost).run tokens
        ⟨place, loops, noted⟩ := rfl
  rw [honward, run_bind]
  generalize x.run tokens ⟨place, loops, noted⟩ = walked at hx
  cases hr : r.run ts with
  | stuck complaint rest new =>
    rw [hr] at hx
    cases hx with
    | stuck hne hrest hafter => exact .stuck hne hrest hafter
  | read a rest new =>
    rw [hr] at hx
    cases hx with
    | @read _ _ _ _ place' hne hrest hafter =>
      have hlen := hlt a rest new hr
      rw [← hrest, ← hdrop] at hlen
      have hmoved := place_lt_of_drop hlen
      dsimp only
      rw [run_bind]
      simp only [here, hmoved, if_true]
      exact .read hne hrest hafter

/-! ## Newlines -/

/-- One newline and the others after it. -/
def nextNewline : TokenReader PUnit := do
  match ← take? (· == .newline) with
  | some _ => TokenReader.skipNewlines
  | none => pure ⟨⟩

theorem run_nextNewline (ts : List Token) : nextNewline.run ts = TokenReader.skipNewlines.run ts := by
  unfold nextNewline
  cases ts with
  | nil => rfl
  | cons t ts =>
    rw [TokenReader.run_bind]
    by_cases hk : t.kind = .newline
    · simp [take?, TokenReader.skipNewlines, afterNewlines, hk, Reading.after]
    · simp [take?, TokenReader.skipNewlines, afterNewlines, hk, Reading.after, TokenReader.run_pure]

/-- Each newline is a token of its own, so the bound is not reached. -/
theorem follows_skipNewlines (bound : Nat) : ∀ {n : Nat}, n ≤ bound →
    Follows n loops (skipNewlines bound) TokenReader.skipNewlines := by
  induction bound with
  | zero =>
    intro n hn
    obtain rfl := Nat.le_zero.1 hn
    exact follows_zero _ _
  | succ bound ih =>
    intro n hn ts he hts tokens place noted hdrop
    have hnext : Follows n loops (skipNewlines (bound + 1)) nextNewline := by
      rw [skipNewlines]
      exact follows_taken? (· == .newline) rfl (follows_pure _) fun t _ m hm => ih (by omega)
    rw [← run_nextNewline]
    exact hnext ts he hts tokens place noted hdrop

/-- A look past newlines that finds nothing leaves the cursor where it was. -/
theorem followsOn_lookPast {bound : Nat} {kind : Kind} (hk : kind ≠ .eof) (he : EndsOnce ts) (hb : ts.length ≤ bound) :
    FollowsOn loops (lookPast bound kind) (takePast? kind) ts := by
  intro tokens place noted hdrop
  have hskip : Matches tokens loops noted _ ((skipNewlines bound).run tokens ⟨place, loops, noted⟩) :=
    follows_skipNewlines bound hb ts he (Nat.le_refl _) tokens place noted hdrop
  have hlookPast : (lookPast bound kind).run tokens ⟨place, loops, noted⟩ =
      (skipNewlines bound >>= fun _ => taken? (· == kind) >>= fun o =>
        match o with
        | some t => pure (some t)
        | none => goTo place >>= fun _ => pure none).run tokens ⟨place, loops, noted⟩ := rfl
  rw [hlookPast, run_bind]
  generalize (skipNewlines bound).run tokens ⟨place, loops, noted⟩ = walked at hskip
  cases hskip with
  | @read _ _ _ _ place' hne hrest hafter =>
    have hends : EndsOnce (afterNewlines ts) := endsOnce_rest he (List.dropWhile_suffix _) hne
    rw [List.append_nil] at hafter
    subst hafter
    dsimp only
    rw [run_bind]
    simp only [takePast?]
    cases hnext : afterNewlines ts with
    | nil => exact absurd hnext hne
    | cons t rest =>
      rw [hnext] at hrest hends
      by_cases hkind : t.kind = kind
      · rcases hends.cons with ⟨heof, -⟩ | ⟨hneof, hends'⟩
        · exact absurd (hkind.symm.trans heof) hk
        · rw [run_taken?_some hrest hneof (by simpa using hkind) (endsOnce_ne_nil hends')]
          simp only [hkind, if_true]
          exact .read (endsOnce_ne_nil hends') (get_of_drop hrest).2 (List.append_nil _).symm
      · rw [run_taken?_none hrest (by simpa using hkind)]
        simp only [hkind, if_false]
        -- back to the first of the newlines
        rw [run_bind, run_goTo _ hdrop (endsOnce_ne_nil he)]
        exact .read (endsOnce_ne_nil he) hdrop (List.append_nil _).symm

theorem follows_lookPast {bound : Nat} {kind : Kind} {f : Option Token → Walk β} {g : Option Token → TokenReader β}
    (hk : kind ≠ .eof) (hb : n ≤ bound) (hn : Follows n loops (f none) (g none))
    (hs : ∀ t, ∀ m < n, Follows m loops (f (some t)) (g (some t))) :
    Follows n loops (lookPast bound kind >>= f) (takePast? kind >>= g) := by
  intro ts he hts
  refine (followsOn_lookPast hk he (Nat.le_trans hts hb)).bind fun o rest noted hr hne => ?_
  have hrest := endsOnce_of_run he hr hne
  have hlen : (afterNewlines ts).length ≤ ts.length := (List.dropWhile_suffix _).length_le
  simp only [takePast?] at hr
  split at hr
  · next t rest' ht =>
    rw [ht, List.length_cons] at hlen
    split at hr <;> obtain ⟨rfl, rfl, -⟩ := Reading.read.inj hr
    · exact hs t rest'.length (by omega) rest' hrest (Nat.le_refl _)
    · exact hn ts he hts
  · obtain ⟨rfl, rfl, -⟩ := Reading.read.inj hr
    exact hn ts he hts

/-! ## Loops and faults -/

/-- A loop is forgotten again, also where the walk unwinds. -/
theorem Follows.aroundLoop (h : Follows n (loops + 1) x r) : Follows n loops (aroundLoop x) r := by
  intro ts he hts tokens place noted hdrop
  have hx := h ts he hts tokens place noted hdrop
  simp only [Walk.aroundLoop]
  generalize x.run tokens ⟨place, loops + 1, noted⟩ = walked at hx
  generalize r.run ts = reading at hx
  cases hx with
  | read hne hrest hafter => exact .read hne hrest hafter
  | stuck hne hrest hafter => exact .stuck hne hrest hafter

theorem skipLine_ne_nil (he : EndsOnce ts) : skipLine ts ≠ [] := by
  induction ts with
  | nil => exact absurd rfl (endsOnce_ne_nil he)
  | cons t rest ih =>
    rw [skipLine]
    split
    · simp
    · next hstop =>
      rcases he.cons with ⟨heof, -⟩ | ⟨-, hrest⟩
      · simp [heof, endsBlock] at hstop
      · split
        · exact endsOnce_ne_nil hrest
        · exact ih hrest

theorem resume_ne_nil (he : EndsOnce ts) : resume ts ≠ [] := by
  cases ts with
  | nil => exact absurd rfl (endsOnce_ne_nil he)
  | cons t rest =>
    rw [resume]
    split
    · simp
    · next hstop =>
      rcases he.cons with ⟨heof, -⟩ | ⟨-, hrest⟩
      · simp [heof, endsBlock] at hstop
      · split
        · exact endsOnce_ne_nil hrest
        · exact skipLine_ne_nil hrest

section Synchronize

variable {tokens : List Token} {noted : List Complaint} {place : Nat}

/-- The token before a place is a newline. -/
def afterNewline (tokens : List Token) : Nat → Bool
  | 0 => false
  | place + 1 => tokens[place]?.any (·.kind == .newline)

theorem run_behindNewline (hdrop : tokens.drop place = ts) (hne : ts ≠ []) :
    behindNewline.run tokens ⟨place, loops, noted⟩ = .done (afterNewline tokens place) ⟨place, loops, noted⟩ := by
  have hlt := lt_length_of_drop hdrop hne
  cases place with
  | zero => rfl
  | succ place =>
    have hget : tokens[place]? = some tokens[place] := List.getElem?_eq_getElem (by omega)
    have hprevious : previous.run tokens ⟨place + 1, loops, noted⟩ = .done tokens[place] ⟨place + 1, loops, noted⟩ := by
      simp only [previous, hget]
    have hbehind : behindNewline.run tokens ⟨place + 1, loops, noted⟩ =
        (previous >>= fun t => pure (t.kind == .newline)).run tokens ⟨place + 1, loops, noted⟩ := rfl
    rw [hbehind, run_bind, hprevious]
    simp only [afterNewline, hget, Option.any_some]
    rfl

/-- The walk stops right behind a newline, and else skips the line. -/
theorem run_toNextLine (loops : Nat) (noted : List Complaint) (bound : Nat) : ∀ {ts : List Token} {place : Nat},
    EndsOnce ts → ts.length ≤ bound → tokens.drop place = ts →
    ∃ place', tokens.drop place' = (if afterNewline tokens place then ts else skipLine ts) ∧
      (toNextLine bound).run tokens ⟨place, loops, noted⟩ = .done ⟨⟩ ⟨place', loops, noted⟩ := by
  induction bound with
  | zero =>
    intro ts place he hb _
    have hpos := List.length_pos_iff.2 (endsOnce_ne_nil he)
    omega
  | succ bound ih =>
    intro ts place he hb hdrop
    cases ts with
    | nil => exact absurd rfl (endsOnce_ne_nil he)
    | cons t rest =>
      rw [toNextLine, run_peek _ hdrop]
      rcases he.cons with ⟨heof, rfl⟩ | ⟨hneof, hrest⟩
      · refine ⟨place, ?_, by rw [if_pos heof]; rfl⟩
        simp [skipLine, heof, endsBlock, hdrop]
      · rw [if_neg hneof, run_bind, run_behindNewline hdrop (by simp)]
        dsimp only
        cases hbehind : afterNewline tokens place with
        | true => exact ⟨place, hdrop, rfl⟩
        | false =>
          simp only [Bool.false_eq_true, if_false, skipLine]
          split
          · exact ⟨place, hdrop, rfl⟩
          · -- the token that is passed now is the one to look back at next
            obtain ⟨hget, hnext⟩ := get_of_drop hdrop
            rw [run_bind, run_advance hdrop hneof (endsOnce_ne_nil hrest)]
            obtain ⟨place', hdrop', hrun⟩ := ih hrest (by simpa using hb) hnext
            refine ⟨place', ?_, hrun⟩
            simpa [afterNewline, hget] using hdrop'

/-- Where the walk takes up again is where the reader does. At the end it looks
back, so it must not stand at the first token. -/
theorem run_synchronize {bound : Nat} (he : EndsOnce ts) (hb : ts.length ≤ bound) (hdrop : tokens.drop place = ts)
    (hplace : nextKind ts = .eof → 0 < place) :
    ∃ place', tokens.drop place' = resume ts ∧
      (synchronize bound).run tokens ⟨place, loops, noted⟩ = .done ⟨⟩ ⟨place', loops, noted⟩ := by
  cases ts with
  | nil => exact absurd rfl (endsOnce_ne_nil he)
  | cons t rest =>
    rw [synchronize, run_peek _ hdrop]
    by_cases hstop : t.kind = .katapusan ∨ t.kind = .rightBrace
    · rw [if_pos hstop]
      obtain ⟨place', hdrop', hrun⟩ := run_toNextLine loops noted bound he hb hdrop
      have hends : endsBlock t.kind = true := endsBlock_iff.2 (hstop.elim .inl fun h => .inr (.inl h))
      refine ⟨place', ?_, hrun⟩
      simpa [resume, skipLine, hends] using hdrop'
    · rw [if_neg hstop, run_bind]
      rcases he.cons with ⟨heof, rfl⟩ | ⟨hneof, hrest⟩
      · -- the end is not passed, but the token before it is looked at
        obtain ⟨before, rfl⟩ : ∃ before, place = before + 1 := ⟨place - 1, by have := hplace heof; omega⟩
        have hlt := lt_length_of_drop hdrop (by simp)
        have hadvance : advance.run tokens ⟨before + 1, loops, noted⟩ =
            .done tokens[before] ⟨before + 1, loops, noted⟩ := by
          rw [advance, run_peek _ hdrop, if_pos heof]
          simp only [previous, List.getElem?_eq_getElem (show before < tokens.length by omega)]
        obtain ⟨place', hdrop', hrun⟩ := run_toNextLine loops noted bound he hb hdrop
        rw [hadvance]
        refine ⟨place', ?_, hrun⟩
        simpa [resume, skipLine, heof, endsBlock] using hdrop'
      · obtain ⟨hget, hnext⟩ := get_of_drop hdrop
        obtain ⟨place', hdrop', hrun⟩ :=
          run_toNextLine loops noted bound hrest (Nat.le_of_succ_le hb) hnext
        have hends : endsBlock t.kind = false :=
          endsBlock_eq_false.2 ⟨fun h => hstop (.inl h), fun h => hstop (.inr h), hneof⟩
        rw [run_advance hdrop hneof (endsOnce_ne_nil hrest)]
        refine ⟨place', ?_, hrun⟩
        simpa [resume, hends, afterNewline, hget] using hdrop'

end Synchronize

/-- A statement that was begun may be dropped. Its tokens are not at the end
already, so there is one to look back at. -/
theorem FollowsOn.recover {bound : Nat} (h : FollowsOn loops x r ts) (he : EndsOnce ts) (hb : ts.length ≤ bound)
    (hk : nextKind ts ≠ .eof) : FollowsOn loops (recover bound x) (orResume r) ts := by
  intro tokens place noted hdrop
  have hx := h tokens place noted hdrop
  have hsuffix := r.rest_suffix ts
  rw [run_orResume]
  simp only [Walk.recover]
  generalize x.run tokens ⟨place, loops, noted⟩ = walked at hx
  generalize r.run ts = reading at hx hsuffix
  cases hx with
  | read hne hrest hafter => exact .read hne hrest hafter
  | @stuck complaint rest new _ place' hne hrest hafter =>
    subst hafter
    have hsuffix : rest <:+ ts := hsuffix
    have hends := endsOnce_rest he hsuffix hne
    have hplace : nextKind rest = .eof → 0 < place' := by
      intro heof
      refine Nat.pos_of_ne_zero fun hzero => ?_
      -- the walk would stand where it started
      subst hzero
      have hle : ts.length ≤ rest.length := by
        rw [← hdrop, ← hrest, List.length_drop, List.drop_zero]
        omega
      rw [hsuffix.eq_of_length_le hle] at heof
      exact hk heof
    obtain ⟨place'', hdrop', hrun⟩ := run_synchronize hends (Nat.le_trans hsuffix.length_le hb) hrest hplace
    dsimp only
    rw [run_bind, hrun]
    exact .read (resume_ne_nil hends) hdrop' (List.append_assoc _ _ _)

end Walk

end BisayaPlus
