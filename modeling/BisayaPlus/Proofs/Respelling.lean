import BisayaPlus.Proofs.LineFeeds
import BisayaPlus.Proofs.ReportOrder
/-!
# Tokens written out again

The lexemes of a source can be written in a row with a tab between neighbours.
Only at two minus signs it takes more care: right behind a name there must be no
tab before them, and elsewhere none after them. Scanned again, that text gives
the tokens it was written from.
-/

set_option autoImplicit false

namespace BisayaPlus

open Text Scan

/-! ## Writing -/

/-- What is written behind a token in front of the next one, where `last` is the
kind of the token before it. -/
def gap (last : Option Kind) (kind : Kind) (next : Option Kind) : Text :=
  if next = none ∨ (kind = .identifier ∧ next = some .minusMinus) ∨ (kind = .minusMinus ∧ last ≠ some .identifier)
  then [] else [9]

/-- The lexemes of tokens with the gaps between them. -/
def respell (last : Option Kind) : List Token → Text
  | [] => []
  | token :: more =>
    token.lexeme ++ gap last token.kind (more.head?.map (·.kind)) ++ respell (some token.kind) more

/-- The token without its offset. -/
def Token.unplaced (t : Token) : Token := { t with pos := none }

theorem lineFeeds_gap (last : Option Kind) (kind : Kind) (next : Option Kind) : lineFeeds (gap last kind next) = 0 := by
  unfold gap
  split <;> rfl

theorem lineFeeds_respell (last : Option Kind) (tokens : List Token) :
    lineFeeds (respell last tokens) = lineFeeds (tokens.flatMap (·.lexeme)) := by
  induction tokens generalizing last with
  | nil => rfl
  | cons token more ih =>
    rw [respell, lineFeeds_append, lineFeeds_append, lineFeeds_gap, ih, Nat.add_zero, List.flatMap_cons,
      lineFeeds_append]

/-- A token without bytes at the end only adds a tab, if anything. -/
theorem respell_append_empty (last : Option Kind) (tokens : List Token) (ending : Token) (h : ending.lexeme = []) :
    ∃ tail, (tail = [] ∨ tail = [9]) ∧ respell last (tokens ++ [ending]) = respell last tokens ++ tail := by
  induction tokens generalizing last with
  | nil => exact ⟨[], .inl rfl, by simp [respell, gap, h]⟩
  | cons token more ih =>
    cases more with
    | nil =>
      refine ⟨gap last token.kind (some ending.kind), ?_, by simp [respell, gap, h]⟩
      unfold gap
      split
      · exact .inl rfl
      · exact .inr rfl
    | cons next more =>
      obtain ⟨tail, htail, heq⟩ := ih (some token.kind)
      refine ⟨tail, htail, ?_⟩
      rw [List.cons_append, respell, heq]
      simp [respell]

/-! ## Reading again -/

namespace Scan

/-- Behind `before`, from this line on, the text is scanned to these tokens
without a report, wherever it stands. -/
def Reads (before : Before) (line : Nat) (text : Text) (tokens : List Token) : Prop :=
  ∀ pos, (segmentsFrom before pos line text).filterMap Segment.diagnostic? = [] ∧
    ((segmentsFrom before pos line text).filterMap Segment.token?).map Token.unplaced = tokens.map Token.unplaced

theorem reads_nil (before : Before) (line : Nat) : Reads before line [] [] := by
  intro pos
  rw [segmentsFrom]
  exact ⟨rfl, rfl⟩

section Reads

variable {before : Before} {line : Nat} {text rest : Text} {tokens : List Token}

theorem Reads.tab (h : Reads { before with touching := false } line text tokens) :
    Reads before line (9 :: text) tokens := by
  intro pos
  have hblank : pieceAt before 9 text = (.blank, 0) := rfl
  rw [segmentsFrom]
  dsimp only
  rw [hblank]
  exact h (pos + 1)

theorem Reads.token {b : UInt8} {x : Text} {kind : Kind} {literal : Option Value} {pos : Nat} {first : Token}
    (hpiece : pieceAt before b (x ++ rest) = (.token kind literal, x.length))
    (hfirst : Segment.token? ⟨.token kind literal, b :: x, pos, line⟩ = some first)
    (h : Reads ⟨some kind, true⟩ (Segment.nextLine ⟨.token kind literal, b :: x, pos, line⟩) rest tokens) :
    Reads before line (b :: x ++ rest) (first :: tokens) := by
  intro pos'
  obtain rfl := Option.some.inj hfirst
  rw [List.cons_append, segmentsFrom]
  dsimp only
  rw [hpiece]
  dsimp only
  rw [List.take_left, List.drop_left]
  obtain ⟨hreports, htokens⟩ := h (pos' + (b :: x).length)
  refine ⟨hreports, ?_⟩
  rw [List.map_cons, ← htokens]
  rfl

end Reads

/-! ## Decrements -/

section Decrements

variable {before : Before} {b : UInt8} {t : Text} {kind : Kind} {literal : Option Value} {n pos line : Nat}

theorem Cuts.kind_ne_minusMinus (h : Cuts b t (.token kind literal, n)) : kind ≠ .minusMinus := by
  rintro rfl
  rcases h.kind_cases with hkind | ⟨spelling, hmem, -⟩
  · exact absurd hkind (by decide)
  · exact (by decide : ∀ entry ∈ signs, entry.2 ≠ .minusMinus) _ hmem rfl

/-- Of all tokens just the decrements start with two minus signs. -/
theorem pieceAt_minusMinus (h : pieceAt before b t = (.token kind literal, n)) :
    (kind = .minusMinus ∧ literal = none ∧ n = 1 ∧ b = byte '-' ∧ t.head? = some (byte '-') ∧
        isDecrement before (t.drop 1) = true) ∨
      (kind ≠ .minusMinus ∧ ¬(b == byte '-' && t.head? == some (byte '-')) = true) := by
  by_cases hminus : (b == byte '-' && t.head? == some (byte '-')) = true
  · left
    unfold pieceAt at h
    rw [if_pos hminus] at h
    simp only [Bool.and_eq_true, beq_iff_eq] at hminus
    split at h
    · next hdecrement =>
      obtain ⟨hpiece, rfl⟩ := Prod.mk.inj h
      obtain ⟨rfl, rfl⟩ := Piece.token.inj hpiece
      exact ⟨rfl, rfl, rfl, hminus.1, hminus.2, hdecrement⟩
    · cases h
  · exact .inr ⟨(cuts_pieceAt hminus h).kind_ne_minusMinus, hminus⟩

theorem bytes_of_minusMinus {s : Segment} (hs : s ∈ segmentsFrom before pos line t)
    (hpiece : s.piece = .token .minusMinus literal) : s.bytes.head? = some (byte '-') := by
  fun_induction segmentsFrom before pos line t with
  | case1 before pos line => cases hs
  | case2 before pos line b t found segment ih =>
    rcases List.mem_cons.1 hs with rfl | hs
    · have hfound : pieceAt before b t = (.token .minusMinus literal, found.2) := Prod.ext hpiece rfl
      rcases pieceAt_minusMinus hfound with ⟨-, -, -, hb, -⟩ | ⟨hkind, -⟩
      · rw [← hb]
        rfl
      · exact absurd rfl hkind
    · exact ih hs

theorem lexeme_of_minusMinus {token : Token} (h : token ∈ (segmentsFrom before pos line t).filterMap Segment.token?)
    (hkind : token.kind = .minusMinus) : token.lexeme.head? = some (byte '-') := by
  obtain ⟨s, hs, heq⟩ := List.mem_filterMap.1 h
  unfold Segment.token? at heq
  split at heq
  · next kind literal hpiece =>
    obtain rfl := Option.some.inj heq
    obtain rfl : kind = .minusMinus := hkind
    exact bytes_of_minusMinus hs hpiece
  · cases heq

/-- A letter starts a token. -/
theorem exists_token_of_isLetter (hb : isLetter b = true) :
    ∃ next ∈ ((segmentsFrom before pos line (b :: t)).filterMap Segment.token?).head?, next.lexeme.head? = some b := by
  have hminus : ¬(b == byte '-' && t.head? == some (byte '-')) = true := by
    simp only [Bool.and_eq_true, beq_iff_eq, not_and]
    rintro rfl
    exact absurd hb (by decide)
  obtain ⟨kind, n, hword⟩ : ∃ kind n, wordPiece b t = (.token kind none, n) := by
    unfold wordPiece
    dsimp only
    split
    · exact ⟨_, _, rfl⟩
    · exact ⟨_, _, rfl⟩
  have hpiece : pieceAt before b t = (.token kind none, n) := (Cuts.word hb hword).pieceAt_eq before hminus
  rw [segmentsFrom]
  dsimp only
  rw [hpiece]
  exact ⟨_, rfl, rfl⟩

end Decrements

/-! ## All tokens -/

/-- A segment is a token, or is passed over, or is at fault. -/
theorem segment_cases {s : Segment} (h : Fits s.piece s.bytes) :
    (∃ first kind literal, s.piece = .token kind literal ∧ s.token? = some first ∧ s.diagnostic? = none) ∨
    (s.token? = none ∧ s.diagnostic? = none ∧ lineFeeds s.bytes = 0 ∧ s.nextLine = s.line ∧
      ∀ before : Before, before.after s.piece = { before with touching := false }) ∨
    ∃ d, s.diagnostic? = some d := by
  obtain ⟨piece, bytes, pos, line⟩ := s
  cases h with
  | token => exact .inl ⟨_, _, _, rfl, rfl, rfl⟩
  | blank h => exact .inr (.inl ⟨rfl, rfl, by rcases h with rfl | rfl | rfl <;> rfl, rfl, fun _ => rfl⟩)
  | comment h => exact .inr (.inl ⟨rfl, rfl, lineFeeds_eq_zero h.2, rfl, fun _ => rfl⟩)
  | fault => exact .inr (.inr ⟨_, rfl⟩)

section Respell

variable {before : Before} {b : UInt8} {t tail : Text} {kind : Kind} {literal : Option Value} {n pos line : Nat}
  {first : Token} {more : List Token}

/-- What is written behind a token is read again if what follows the gap is. -/
theorem Reads.after_gap {last : Option Kind} {text : Text}
    (h : ∀ before' : Before, before'.kind = some kind →
      (kind = .identifier → ∀ next ∈ more.head?, next.kind = .minusMinus → before'.touching = true) →
      Reads before' line text more) :
    Reads ⟨some kind, true⟩ line (gap last kind (more.head?.map (·.kind)) ++ text) more := by
  unfold gap
  split
  · exact h _ rfl fun _ _ _ _ => rfl
  · next htab =>
    refine Reads.tab (h _ rfl fun hkind next hnext hminus => ?_)
    exact absurd (.inr (.inl ⟨hkind, by rw [hnext]; exact congrArg some hminus⟩)) htab

theorem head?_respell {last : Option Kind} {c : UInt8} (hnext : first ∈ more.head?) (hc : first.lexeme.head? = some c) :
    (respell last more ++ tail).head? = some c := by
  obtain ⟨others, rfl⟩ : ∃ others, more = first :: others := List.head?_eq_some_iff.1 hnext
  simp [respell, hc]

theorem pieceAt_decrement {rest : Text} (h : isDecrement before rest = true) :
    pieceAt before (byte '-') (byte '-' :: rest) = (.token .minusMinus none, 1) := by
  have hminus : (byte '-' == byte '-' && (byte '-' :: rest).head? == some (byte '-')) = true := by simp
  unfold pieceAt
  rw [if_pos hminus]
  exact if_pos h

/-- Two minus signs stay a decrement if they still touch the name before them, or
where there is none if the letter behind them stays. -/
theorem isDecrement_again {before' : Before} {rest : Text} (h : isDecrement before t = true)
    (hkind : before'.kind = before.kind) (htouch : before.kind = some .identifier → before'.touching = true)
    (hletter : before.kind ≠ some .identifier → ∀ c ∈ t.head?, isLetter c = true → rest.head? = some c) :
    isDecrement before' rest = true := by
  unfold isDecrement at h ⊢
  rw [hkind]
  cases hlast : before.kind with
  | none => simp [hlast] at h
  | some last =>
    rw [hlast] at h htouch hletter
    dsimp only at h ⊢
    by_cases hname : last = .identifier
    · simp [hname, htouch (congrArg some hname)]
    · simp only [beq_eq_false_iff_ne.2 hname, Bool.false_and, Bool.false_or, Bool.and_eq_true] at h ⊢
      obtain ⟨hexpects, hany⟩ := h
      obtain ⟨c, hc, hisLetter⟩ := (Option.any_eq_true _ _).1 hany
      rw [hletter (fun h => hname (Option.some.inj h)) c hc hisLetter]
      exact ⟨hexpects, hisLetter⟩

/-- A token is the same again in front of the others as they are written. -/
theorem pieceAt_respell {before' : Before} (hpiece : pieceAt before b t = (.token kind literal, n))
    (hkind : before'.kind = before.kind)
    (htouch : before.kind = some .identifier → kind = .minusMinus → before'.touching = true)
    (htail : tail = [] ∨ tail = [9])
    (hminusMinus : ∀ next ∈ more.head?, next.kind = .minusMinus → next.lexeme.head? = some (byte '-'))
    (hletter : ∀ c ∈ (t.drop n).head?, isLetter c = true → ∃ next ∈ more.head?, next.lexeme.head? = some c) :
    pieceAt before' b (t.take n ++ (gap before.kind kind (more.head?.map (·.kind)) ++
      (respell (some kind) more ++ tail))) = (.token kind literal, n) := by
  rcases pieceAt_minusMinus hpiece with ⟨rfl, rfl, rfl, rfl, hsecond, hdecrement⟩ | ⟨hother, hminus⟩
  · obtain ⟨t, rfl⟩ : ∃ t', t = byte '-' :: t' := List.head?_eq_some_iff.1 hsecond
    rw [List.take_succ_cons, List.take_zero, List.singleton_append]
    refine pieceAt_decrement (isDecrement_again hdecrement hkind (fun h => htouch h rfl) fun hlast c hc hisLetter => ?_)
    have hgap : gap before.kind .minusMinus (more.head?.map (·.kind)) = [] := if_pos (.inr (.inr ⟨rfl, hlast⟩))
    obtain ⟨next, hnext, hfirst⟩ := hletter c hc hisLetter
    rw [hgap, List.nil_append, head?_respell hnext hfirst]
  · refine pieceAt_append before' hpiece hminus fun c hc => ?_
    unfold gap at hc
    split at hc
    · next hgap =>
      rcases hgap with hnone | ⟨rfl, hnext⟩ | ⟨hkind, -⟩
      · obtain rfl : more = [] := by simpa using hnone
        rcases htail with rfl | rfl
        · cases hc
        · exact .inl (by simpa [respell] using hc.symm)
      · obtain ⟨next, hmem, hnext⟩ := Option.map_eq_some_iff.1 hnext
        rw [List.nil_append, head?_respell hmem (hminusMinus next hmem hnext)] at hc
        exact .inr ⟨(Option.some.inj hc).symm, by decide⟩
      · exact absurd hkind hother
    · exact .inl (by simpa using hc.symm)

/-- One token, and then the others as they are written. -/
theorem Reads.respell_cons {before' : Before} (hpiece : pieceAt before b t = (.token kind literal, n))
    (hfirst : Segment.token? ⟨.token kind literal, b :: t.take n, pos, line⟩ = some first)
    (hkind : before'.kind = before.kind)
    (htouch : before.kind = some .identifier → kind = .minusMinus → before'.touching = true)
    (htail : tail = [] ∨ tail = [9])
    (hminusMinus : ∀ next ∈ more.head?, next.kind = .minusMinus → next.lexeme.head? = some (byte '-'))
    (hletter : ∀ c ∈ (t.drop n).head?, isLetter c = true → ∃ next ∈ more.head?, next.lexeme.head? = some c)
    (h : ∀ before' : Before, before'.kind = some kind →
      (kind = .identifier → ∀ next ∈ more.head?, next.kind = .minusMinus → before'.touching = true) →
      Reads before' (Segment.nextLine ⟨.token kind literal, b :: t.take n, pos, line⟩)
        (respell (some kind) more ++ tail) more) :
    Reads before' line (respell before.kind (first :: more) ++ tail) (first :: more) := by
  have hn : (t.take n).length = n := by
    have hwithin := within_pieceAt before b t
    rw [hpiece] at hwithin
    rw [List.length_take, Nat.min_eq_left hwithin.size_le]
  have hagain := pieceAt_respell hpiece hkind htouch htail hminusMinus hletter
  have htext : respell before.kind (first :: more) ++ tail = b :: t.take n ++
      (gap before.kind kind (more.head?.map (·.kind)) ++ (respell (some kind) more ++ tail)) := by
    obtain rfl := Option.some.inj hfirst
    simp [respell]
  rw [htext]
  refine Reads.token ?_ hfirst (Reads.after_gap h)
  rw [hn]
  exact hagain

/-- The tokens of a text without a report are read again from what they are
written to. What was read before is the same again, and a name still touches two
minus signs that come next. -/
theorem reads_respell (htail : tail = [] ∨ tail = [9])
    (hclean : (segmentsFrom before pos line t).filterMap Segment.diagnostic? = []) (before' : Before)
    (hkind : before'.kind = before.kind)
    (htouch : before.kind = some .identifier → ∀ next ∈ ((segmentsFrom before pos line t).filterMap
      Segment.token?).head?, next.kind = .minusMinus → before'.touching = true) :
    Reads before' line (respell before.kind ((segmentsFrom before pos line t).filterMap Segment.token?) ++ tail)
      ((segmentsFrom before pos line t).filterMap Segment.token?) := by
  fun_induction segmentsFrom before pos line t generalizing before' with
  | case1 before pos line =>
    rcases htail with rfl | rfl
    · exact reads_nil before' line
    · exact (reads_nil _ line).tab
  | case2 before pos line b t found segment ih =>
    have hfits : Fits segment.piece segment.bytes := fits_pieceAt before b t
    rcases segment_cases hfits with
      ⟨first, kind, literal, hpiece, hfirst, hquiet⟩ | ⟨hnone, hquiet, -, hend, hafter⟩ | ⟨d, hreport⟩
    · rw [List.filterMap_cons_none hquiet] at hclean
      rw [List.filterMap_cons_some hfirst] at htouch ⊢
      have hfound : pieceAt before b t = (.token kind literal, found.2) := Prod.ext hpiece rfl
      have hsegment : segment = ⟨.token kind literal, b :: t.take found.2, pos, line⟩ := by rw [← hpiece]
      have hafter : before.after found.1 = ⟨some kind, true⟩ := by rw [show found.1 = _ from hpiece]; rfl
      rw [hsegment] at hfirst
      have hfirstKind : first.kind = kind := by
        obtain rfl := Option.some.inj hfirst
        rfl
      rw [hafter] at ih hclean ⊢
      refine Reads.respell_cons hfound hfirst hkind (fun hlast hminus => ?_) htail (fun next hnext => ?_)
        (fun c hc => ?_) ?_
      · exact htouch hlast first rfl (hfirstKind.trans hminus)
      · exact lexeme_of_minusMinus (List.mem_of_mem_head? hnext)
      · obtain ⟨rest, hrest⟩ := List.head?_eq_some_iff.1 hc
        rw [hrest]
        exact exists_token_of_isLetter
      · intro before' hkind htouch
        rw [← hsegment]
        exact ih hclean before' hkind fun hlast => htouch (Option.some.inj hlast)
    · rw [List.filterMap_cons_none hquiet] at hclean
      rw [List.filterMap_cons_none hnone] at htouch ⊢
      have hsame : (before.after found.1).kind = before.kind := by rw [show before.after found.1 = _ from hafter before]
      have hmore := ih hclean before' (by rw [hsame, hkind]) (by rw [hsame]; exact htouch)
      rw [hsame] at hmore
      rw [hend] at hmore ⊢
      exact hmore
    · rw [List.filterMap_cons_some hreport] at hclean
      cases hclean

/-- Without a report all line feeds of a text are in its tokens. -/
theorem lineFeeds_tokens (hclean : (segmentsFrom before pos line t).filterMap Segment.diagnostic? = []) :
    lineFeeds (((segmentsFrom before pos line t).filterMap Segment.token?).flatMap (·.lexeme)) = lineFeeds t := by
  fun_induction segmentsFrom before pos line t with
  | case1 before pos line => rfl
  | case2 before pos line b t found segment ih =>
    have hfits : Fits segment.piece segment.bytes := fits_pieceAt before b t
    have hsplit : lineFeeds segment.bytes + lineFeeds (t.drop found.2) = lineFeeds (b :: t) :=
      lineFeeds_take_add_drop (found.2 + 1) (b :: t)
    rcases segment_cases hfits with
      ⟨first, kind, literal, hpiece, hfirst, hquiet⟩ | ⟨hnone, hquiet, hline, -, -⟩ | ⟨d, hreport⟩
    · rw [List.filterMap_cons_none hquiet] at hclean
      have hlexeme : first.lexeme = segment.bytes := by
        unfold Segment.token? at hfirst
        rw [hpiece] at hfirst
        obtain rfl := Option.some.inj hfirst
        rfl
      rw [List.filterMap_cons_some hfirst, List.flatMap_cons, lineFeeds_append, ih hclean, hlexeme, hsplit]
    · rw [List.filterMap_cons_none hquiet] at hclean
      rw [List.filterMap_cons_none hnone, ih hclean, ← hsplit, hline, Nat.zero_add]
    · rw [List.filterMap_cons_some hreport] at hclean
      cases hclean

end Respell

end Scan

/-- A source without a report can be written out from its tokens, with or without
the one that marks the end. Scanning that text gives no report and the same
tokens, which differ in their offsets at most. -/
theorem scan_respell (source : Text) (hclean : (scan source).diagnostics = []) :
    let tokens := (scan source).tokens
    ∀ text ∈ [respell none tokens, respell none tokens.dropLast],
      (scan text).diagnostics = [] ∧ (scan text).tokens.map Token.unplaced = tokens.map Token.unplaced := by
  intro tokens
  have hbody : tokens.dropLast = (segments source).filterMap Segment.token? := List.dropLast_concat
  -- the two texts differ in what is behind the last token: a tab or nothing
  have hagain : ∀ tail, tail = [] ∨ tail = [9] →
      let text := respell none ((segments source).filterMap Segment.token?) ++ tail
      (scan text).diagnostics = [] ∧ (scan text).tokens.map Token.unplaced = tokens.map Token.unplaced := by
    intro tail htail text
    obtain ⟨hreports, htokens⟩ := reads_respell htail hclean {} rfl nofun 0
    have hlines : lineFeeds text = lineFeeds source := by
      have htail' : lineFeeds tail = 0 := by rcases htail with rfl | rfl <;> rfl
      rw [lineFeeds_append, htail', Nat.add_zero, lineFeeds_respell]
      exact lineFeeds_tokens hclean
    have hlast : (scan text).lastLine = (scan source).lastLine := by rw [lastLine_scan, lastLine_scan, hlines]
    refine ⟨hreports, ?_⟩
    rw [tokens_eq_concat, show tokens = _ from tokens_eq_concat source, List.map_append, List.map_append, hlast]
    exact congrArg (· ++ _) htokens
  intro text htext
  rcases List.mem_cons.1 htext with rfl | htext
  · have hends := respell_append_empty none ((segments source).filterMap Segment.token?)
      { kind := .eof, lexeme := [], line := (scan source).lastLine, pos := some source.length } rfl
    obtain ⟨tail, htail, heq⟩ := hends
    have htext : respell none tokens = _ := heq
    rw [htext]
    exact hagain tail htail
  · obtain rfl := List.mem_singleton.1 htext
    rw [hbody, ← List.append_nil (respell none _)]
    exact hagain [] (.inl rfl)

/-- Both ways to write a decrement, a comment that is left out, and a phrase. -/
theorem scan_respell_decrements :
    let source : Text := "x-- -- down\n y = --z\nKUNG PA 1.5e-3 [n]"
    let text : Text := "x--\t\n\ty\t=\t--z\t\n\tKUNG PA\t1.5e-3\t[n]"
    (scan source).diagnostics = [] ∧ respell none (scan source).tokens.dropLast = text ∧
      (scan text).tokens.map Token.unplaced = (scan source).tokens.map Token.unplaced := by
  intro source text
  have hclean : (scan source).diagnostics = [] := by decide +kernel
  have htext : respell none (scan source).tokens.dropLast = text := by decide +kernel
  exact ⟨hclean, htext, (scan_respell source hclean text (by simp [htext])).2⟩

end BisayaPlus
