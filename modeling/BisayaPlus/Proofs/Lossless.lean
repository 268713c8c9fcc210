import BisayaPlus.Proofs.Segments
/-!
# Scanning loses no text

Every byte of a source is in one segment, and every segment is one of four
things: the lexeme of a token, a single blank, a comment, or the text that one
report complains about. So a source without a report is its tokens with blanks
and comments between them.
-/

set_option autoImplicit false

namespace BisayaPlus.Scan

open Text

/-- A single space, tab or carriage return. -/
def IsBlank (t : Text) : Prop := t = [32] ∨ t = [9] ∨ t = [13]

/-- Two minus signs, and more text on the same line. -/
def IsComment (t : Text) : Prop := [byte '-', byte '-'] <+: t ∧ lineFeed ∉ t

/-- A report of a fault in the bytes, which quotes the first line of this text. -/
structure Quotes (d : Diagnostic) (t : Text) : Prop where
  phase : d.phase = .reading
  place : d.place = (" at '" : String) ++ t.takeWhile (· != lineFeed) ++ ("'" : String)
  message : ∃ fault : ScanFault, d.message = fault.message

/-- `Accounts segments tokens diagnostics`: each segment is one of four things,
and the tokens and the diagnostics belong to segments one by one, in order. No
segment is two of these things, but a decrement `--` reads like a comment with
nothing in it. -/
inductive Accounts : List Segment → List Token → List Diagnostic → Prop where
  | nil : Accounts [] [] []
  | token {s : Segment} {t : Token} {more : List Segment} {tokens : List Token} {diagnostics : List Diagnostic} :
      t.lexeme = s.bytes → t.pos = some s.pos → ¬ IsBlank s.bytes →
      (IsComment s.bytes → t.kind = .minusMinus ∧ s.bytes = [byte '-', byte '-']) →
      Accounts more tokens diagnostics → Accounts (s :: more) (t :: tokens) diagnostics
  | blank {s : Segment} {more : List Segment} {tokens : List Token} {diagnostics : List Diagnostic} :
      IsBlank s.bytes → Accounts more tokens diagnostics → Accounts (s :: more) tokens diagnostics
  | comment {s : Segment} {more : List Segment} {tokens : List Token} {diagnostics : List Diagnostic} :
      IsComment s.bytes → Accounts more tokens diagnostics → Accounts (s :: more) tokens diagnostics
  | fault {s : Segment} {d : Diagnostic} {more : List Segment} {tokens : List Token}
      {diagnostics : List Diagnostic} : Quotes d s.bytes → ¬ IsBlank s.bytes → ¬ IsComment s.bytes →
      Accounts more tokens diagnostics → Accounts (s :: more) tokens (d :: diagnostics)

/-! ## One segment -/

/-- A token or a fault. -/
def IsContent (piece : Piece) : Prop := (∃ kind literal, piece = .token kind literal) ∨ ∃ f, piece = .fault f

theorem isContent_token (kind : Kind) (literal : Option Value) : IsContent (.token kind literal) :=
  .inl ⟨kind, literal, rfl⟩

theorem isContent_fault (f : ScanFault) : IsContent (.fault f) := .inr ⟨f, rfl⟩

theorem isContent_stringPiece (t : Text) : IsContent (stringPiece t).1 := by
  unfold stringPiece
  dsimp only
  split
  · exact isContent_token _ _
  · exact isContent_fault _

theorem isContent_charPiece (t : Text) : IsContent (charPiece t).1 := by
  unfold charPiece
  dsimp only
  split
  · split
    · exact isContent_token _ _
    · exact isContent_fault _
  · exact isContent_fault _

theorem isContent_escapePiece (t : Text) : IsContent (escapePiece t).1 := by
  unfold escapePiece
  dsimp only
  split
  · split
    · split
      · exact isContent_token _ _
      · exact isContent_token _ _
    · exact isContent_token _ _
    · exact isContent_fault _
  · exact isContent_fault _

theorem isContent_numeralPiece (isReal : Bool) (lexeme : Text) : IsContent (numeralPiece isReal lexeme) := by
  unfold numeralPiece
  dsimp only
  split
  · exact isContent_token _ _
  · exact isContent_fault _

theorem isContent_numberPiece (s : Text) : IsContent (numberPiece s).1 := by
  unfold numberPiece
  dsimp only
  split
  · next e rest hrest =>
    split
    · -- the size of the sign does not matter here
      generalize (if rest.head? == some (byte '+') || rest.head? == some (byte '-') then 1 else 0) = signSize
      split
      · exact isContent_fault _
      · exact isContent_numeralPiece _ _
    · exact isContent_numeralPiece _ _
  · exact isContent_numeralPiece _ _

theorem isContent_wordPiece (b : UInt8) (t : Text) : IsContent (wordPiece b t).1 := by
  unfold wordPiece
  dsimp only
  split
  · exact isContent_token _ _
  · exact isContent_token _ _

/-- What the bytes of a segment look like, from what the segment is. -/
inductive Fits : Piece → Text → Prop where
  | token {kind : Kind} {literal : Option Value} {bytes : Text} : ¬ IsBlank bytes →
      (IsComment bytes → kind = .minusMinus ∧ bytes = [byte '-', byte '-']) → Fits (.token kind literal) bytes
  | blank {bytes : Text} : IsBlank bytes → Fits .blank bytes
  | comment {bytes : Text} : IsComment bytes → Fits .comment bytes
  | fault {f : ScanFault} {bytes : Text} : ¬ IsBlank bytes → ¬ IsComment bytes → Fits (.fault f) bytes

section Fits

variable {b : UInt8} {t : Text}

theorem isBlank_singleton : IsBlank [b] ↔ b = 32 ∨ b = 9 ∨ b = 13 := by
  simp [IsBlank]

theorem not_isBlank (h : ¬ IsBlank [b]) : ¬ IsBlank (b :: t) := by
  rw [isBlank_singleton] at h
  rintro (heq | heq | heq) <;> obtain ⟨rfl, -⟩ := List.cons.inj heq <;> simp at h

theorem head?_of_isComment {n : Nat} (h : IsComment (b :: t.take n)) : b = byte '-' ∧ t.head? = some (byte '-') := by
  obtain ⟨⟨rest, heq⟩, -⟩ := h
  obtain ⟨rfl, htake⟩ := List.cons.inj heq
  refine ⟨rfl, ?_⟩
  -- the second minus sign is the first byte of what was taken
  cases t with
  | nil => simp at htake
  | cons b' t =>
    cases n with
    | zero => simp at htake
    | succ n =>
      obtain ⟨rfl, -⟩ := List.cons.inj htake
      rfl

theorem lineFeed_not_mem_takeWhile (t : Text) : lineFeed ∉ t.takeWhile (· != lineFeed) := by
  intro hmem
  have hall := List.all_eq_true.1 (List.all_takeWhile (p := (· != lineFeed)) (l := t)) lineFeed hmem
  simp at hall

theorem isComment_line (hb : b = byte '-') (ht : t.head? = some (byte '-')) :
    IsComment (b :: t.take (t.takeWhile (· != lineFeed)).length) := by
  have hline : t.take (t.takeWhile (· != lineFeed)).length = t.takeWhile (· != lineFeed) :=
    (List.prefix_iff_eq_take.1 (List.takeWhile_prefix _)).symm
  rw [hline, hb]
  constructor
  · cases t with
    | nil => simp at ht
    | cons b' t =>
      obtain rfl : b' = byte '-' := by simpa using ht
      have hminus : (byte '-' != lineFeed) = true := by decide
      simp [hminus]
  · simp only [List.mem_cons, not_or]
    exact ⟨by decide, lineFeed_not_mem_takeWhile t⟩

/-- Tokens and faults start neither like a blank nor like a comment. -/
theorem fits_content {piece : Piece} {n : Nat} (hc : IsContent piece) (hblank : ¬ IsBlank [b])
    (hminus : ¬ (b = byte '-' ∧ t.head? = some (byte '-'))) : Fits piece (b :: t.take n) := by
  have hcomment : ¬ IsComment (b :: t.take n) := fun h => hminus (head?_of_isComment h)
  rcases hc with ⟨kind, literal, rfl⟩ | ⟨f, rfl⟩
  · exact .token (not_isBlank hblank) fun h => absurd h hcomment
  · exact .fault (not_isBlank hblank) hcomment

theorem fits_pieceAt (before : Before) (b : UInt8) (t : Text) :
    Fits (pieceAt before b t).1 (b :: t.take (pieceAt before b t).2) := by
  unfold pieceAt
  split
  · next hminus =>
    simp only [Bool.and_eq_true, beq_iff_eq] at hminus
    obtain ⟨hb, ht⟩ := hminus
    split
    · obtain ⟨rest, rfl⟩ := List.head?_eq_some_iff.1 ht
      exact .token (not_isBlank (by rw [hb, isBlank_singleton]; decide)) fun _ => ⟨rfl, by rw [hb]; rfl⟩
    · exact .comment (isComment_line hb ht)
  · next hminus =>
    simp only [Bool.and_eq_true, beq_iff_eq] at hminus
    split
    · next hblank =>
      simp only [Bool.or_eq_true, beq_iff_eq] at hblank
      refine .blank (isBlank_singleton.2 ?_)
      rcases hblank with (h | h) | h <;> simp [h]
    · next hblank =>
      simp only [Bool.or_eq_true, beq_iff_eq] at hblank
      have hblank' : ¬ IsBlank [b] := fun h => hblank (by rcases isBlank_singleton.1 h with h | h | h <;> simp [h])
      have hcontent : ∀ {piece : Piece} {n : Nat}, IsContent piece → Fits piece (b :: t.take n) :=
        fun hc => fits_content hc hblank' hminus
      split
      · exact hcontent (isContent_stringPiece t)
      · split
        · exact hcontent (isContent_charPiece t)
        · split
          · exact hcontent (isContent_escapePiece t)
          · split
            · exact hcontent (isContent_numberPiece (b :: t))
            · split
              · exact hcontent (isContent_wordPiece b t)
              · split
                · exact hcontent (isContent_token _ _)
                · exact hcontent (isContent_fault _)

end Fits

/-! ## All segments -/

theorem fits_segmentsFrom {before : Before} {pos line : Nat} {t : Text} {s : Segment}
    (hs : s ∈ segmentsFrom before pos line t) : Fits s.piece s.bytes := by
  fun_induction segmentsFrom before pos line t with
  | case1 before pos line => cases hs
  | case2 before pos line b t found segment ih =>
    rcases List.mem_cons.1 hs with rfl | hs
    · exact fits_pieceAt before b t
    · exact ih hs

theorem accounts_of_fits {parts : List Segment} (h : ∀ s ∈ parts, Fits s.piece s.bytes) :
    Accounts parts (parts.filterMap Segment.token?) (parts.filterMap Segment.diagnostic?) := by
  induction parts with
  | nil => exact .nil
  | cons s more ih =>
    obtain ⟨hs, hmore⟩ := List.forall_mem_cons.1 h
    obtain ⟨piece, bytes, pos, line⟩ := s
    simp only [List.filterMap_cons, Segment.token?, Segment.diagnostic?]
    cases hs with
    | token hblank hcomment => exact .token rfl rfl hblank hcomment (ih hmore)
    | blank hblank => exact .blank hblank (ih hmore)
    | comment hcomment => exact .comment hcomment (ih hmore)
    | fault hblank hcomment => exact .fault ⟨rfl, rfl, _, rfl⟩ hblank hcomment (ih hmore)

section Accounts

variable {parts : List Segment} {tokens : List Token} {diagnostics : List Diagnostic}

theorem Accounts.segment_of_mem (h : Accounts parts tokens diagnostics) {t : Token} (ht : t ∈ tokens) :
    ∃ s ∈ parts, t.lexeme = s.bytes ∧ t.pos = some s.pos := by
  induction h with
  | nil => cases ht
  | token hlexeme hpos _ _ _ ih =>
    rcases List.mem_cons.1 ht with rfl | ht
    · exact ⟨_, List.mem_cons_self, hlexeme, hpos⟩
    · obtain ⟨s, hs, heq⟩ := ih ht
      exact ⟨s, List.mem_cons_of_mem _ hs, heq⟩
  | blank _ _ ih | comment _ _ ih | fault _ _ _ _ ih =>
    obtain ⟨s, hs, heq⟩ := ih ht
    exact ⟨s, List.mem_cons_of_mem _ hs, heq⟩

/-- Without a report, what is not a token is a blank or a comment. -/
theorem Accounts.between (h : Accounts parts tokens []) :
    ∀ s ∈ parts, (∃ t ∈ tokens, t.lexeme = s.bytes ∧ t.pos = some s.pos) ∨ IsBlank s.bytes ∨ IsComment s.bytes := by
  generalize hnone : ([] : List Diagnostic) = diagnostics at h
  induction h with
  | nil => exact fun s hs => nomatch hs
  | token hlexeme hpos _ _ _ ih =>
    refine List.forall_mem_cons.2 ⟨.inl ⟨_, List.mem_cons_self, hlexeme, hpos⟩, fun s hs => ?_⟩
    rcases ih hnone s hs with ⟨t, ht, heq⟩ | h
    · exact .inl ⟨t, List.mem_cons_of_mem _ ht, heq⟩
    · exact .inr h
  | blank hblank _ ih => exact List.forall_mem_cons.2 ⟨.inr (.inl hblank), ih hnone⟩
  | comment hcomment _ ih => exact List.forall_mem_cons.2 ⟨.inr (.inr hcomment), ih hnone⟩
  | fault => cases hnone

end Accounts

/-- A segment is found in the source at its offset. -/
theorem Tiles.slice {start stop : Nat} {parts : List Segment} (h : Tiles start stop parts) {s : Segment}
    (hs : s ∈ parts) : start ≤ s.pos ∧
      ((parts.flatMap (·.bytes)).drop (s.pos - start)).take s.bytes.length = s.bytes := by
  induction parts generalizing start with
  | nil => cases hs
  | cons first more ih =>
    obtain ⟨hpos, -, hmore⟩ := h
    rcases List.mem_cons.1 hs with rfl | hs
    · simp [hpos]
    · obtain ⟨hle, hslice⟩ := ih hmore hs
      have hoffset : s.pos - start = first.bytes.length + (s.pos - (start + first.bytes.length)) := by omega
      refine ⟨by omega, ?_⟩
      rw [List.flatMap_cons, hoffset, ← List.drop_drop, List.drop_left]
      exact hslice

/-- Scanning cuts a source into segments that stand one behind the other, none
of them empty, and each of them is accounted for: by a token at its place, as a
blank, as a comment, or by a report that quotes it. The tokens are found in the
source where they say, and only the last marks the end. Without a report there
is nothing but blanks and comments outside the tokens. -/
theorem scan_loses_no_text (source : Text) :
    (segments source).flatMap (·.bytes) = source ∧ Tiles 0 source.length (segments source) ∧
    ∃ body last, (scan source).tokens = body ++ [last] ∧
      last.kind = .eof ∧ last.lexeme = [] ∧ last.pos = some source.length ∧
      Accounts (segments source) body (scan source).diagnostics ∧
      (∀ t ∈ body, t.kind ≠ .eof ∧
        ∃ pos, t.pos = some pos ∧ (source.drop pos).take t.lexeme.length = t.lexeme) ∧
      ((scan source).diagnostics = [] → ∀ s ∈ segments source,
        (∃ t ∈ body, t.lexeme = s.bytes ∧ t.pos = some s.pos) ∨ IsBlank s.bytes ∨ IsComment s.bytes) := by
  have hbytes : (segments source).flatMap (·.bytes) = source := bytes_segmentsFrom {} 0 1 source
  have htiles : Tiles 0 source.length (segments source) := by
    simpa [segments] using tiles_segmentsFrom {} 0 1 source
  obtain ⟨body, last, htokens, -, -, hbody⟩ := tokens_scan source
  obtain ⟨rfl, rfl⟩ := List.append_singleton_inj.1 htokens
  have haccounts : Accounts (segments source) ((segments source).filterMap Segment.token?) (scan source).diagnostics :=
    accounts_of_fits fun s hs => fits_segmentsFrom hs
  refine ⟨hbytes, htiles, (segments source).filterMap Segment.token?, _, rfl, rfl, rfl, rfl, haccounts, ?_, ?_⟩
  · intro t ht
    obtain ⟨s, hs, hlexeme, hpos⟩ := haccounts.segment_of_mem ht
    have hslice := (htiles.slice hs).2
    rw [hbytes, Nat.sub_zero] at hslice
    exact ⟨(hbody t ht).1.ne_eof, s.pos, hpos, by rw [hlexeme, hslice]⟩
  · intro hnone
    rw [hnone] at haccounts
    exact haccounts.between

end BisayaPlus.Scan
