import BisayaPlus.Program
/-!
# Segments cover the source

Every segment takes at least one byte and ends within the source, also where a
literal is not closed or the bytes encode no character. So the segments cover
the source without a gap, and the only token that marks an end is the one put
behind them.
-/

set_option autoImplicit false

namespace BisayaPlus.Scan

open Text

/-! ## One segment -/

/-- The literals that come with a kind of token. None of the tokens cut from a
source marks its end. -/
inductive Carries : Kind → Option Value → Prop where
  | string (t : Text) : Carries .string (some (.pulong t))
  | escape (t : Text) : Carries .escape (some (.pulong t))
  | char (code : Int32) : Carries .char (some (.letra code))
  | numero (i : Int64) : Carries .number (some (.numero i))
  | tipik (x : Binary64) : Carries .number (some (.tipik x))
  | bare {kind : Kind} : kind ∉ [Kind.eof, .string, .escape, .char, .number] → Carries kind none

theorem Carries.ne_eof {kind : Kind} {literal : Option Value} (h : Carries kind literal) : kind ≠ .eof := by
  rintro rfl
  cases h with
  | bare hmem => exact hmem (by simp)

/-- What is found at the start of a segment, with its size, when `t` follows its
first byte. -/
inductive Within (t : Text) : Piece × Nat → Prop where
  | token {kind : Kind} {literal : Option Value} {n : Nat} : Carries kind literal → n ≤ t.length →
      Within t (.token kind literal, n)
  | blank {n : Nat} : n ≤ t.length → Within t (.blank, n)
  | comment {n : Nat} : n ≤ t.length → Within t (.comment, n)
  | fault {f : ScanFault} {n : Nat} : n ≤ t.length → Within t (.fault f, n)

theorem Within.size_le {t : Text} {found : Piece × Nat} (h : Within t found) : found.2 ≤ t.length := by
  cases h <;> assumption

theorem Within.carries {t : Text} {found : Piece × Nat} {kind : Kind} {literal : Option Value} (h : Within t found)
    (hp : found.1 = .token kind literal) : Carries kind literal := by
  cases h <;> cases hp
  assumption

theorem length_takeWhile_le (p : UInt8 → Bool) (t : Text) : (t.takeWhile p).length ≤ t.length :=
  (List.takeWhile_prefix p).length_le

theorem within_stringPiece (t : Text) : Within t (stringPiece t) := by
  unfold stringPiece
  dsimp only
  split
  · next hlt => exact .token (.string _) hlt
  · exact .fault (length_takeWhile_le _ t)

theorem within_charPiece (t : Text) : Within t (charPiece t) := by
  unfold charPiece
  dsimp only
  generalize hbody : t.takeWhile (fun b => b != byte '\'' && b != lineFeed) = body
  have hle : body.length ≤ t.length := hbody ▸ length_takeWhile_le _ t
  split
  · next hclosed =>
    have hlt : body.length < t.length := by
      refine Nat.lt_of_not_le fun hge => ?_
      simp [List.drop_eq_nil_of_le hge] at hclosed
    split
    · exact .token (.char _) hlt
    · exact .fault hlt
  · exact .fault hle

theorem within_escapePiece (t : Text) : Within t (escapePiece t) := by
  unfold escapePiece
  dsimp only
  generalize hbody : t.takeWhile (fun b => b != byte ']' && b != lineFeed) = body
  have hle : body.length ≤ t.length := hbody ▸ length_takeWhile_le _ t
  split
  · next rest hrest =>
    -- the bracket that closes the escape and what follows it are still there
    have hlen : t.length = body.length + 1 + rest.length := by
      have := congrArg List.length hrest
      simp only [List.length_drop, List.length_cons] at this
      omega
    split
    · split
      · next hclosed =>
        cases rest with
        | nil => simp at hclosed
        | cons b rest => exact .token (.escape _) (by simp only [List.length_nil, List.length_cons] at hlen; omega)
      · exact .token (.escape _) (by simp only [List.length_nil] at hlen; omega)
    · exact .token (.escape _) (by simp only [List.length_cons, List.length_nil] at hlen; omega)
    · exact .fault (by omega)
  · exact .fault hle

theorem mantissa_le (s : Text) : (mantissa s).1 ≤ s.length := by
  have hwhole := length_takeWhile_le isDigit s
  unfold mantissa
  dsimp only
  split
  · next rest hrest =>
    have hlen := congrArg List.length hrest
    have hfraction := length_takeWhile_le isDigit rest
    simp only [List.length_drop, List.length_cons] at hlen
    split
    · exact hwhole
    · dsimp only
      omega
  · exact hwhole

theorem within_numeralPiece {t : Text} {n : Nat} (isReal : Bool) (lexeme : Text) (hn : n ≤ t.length) :
    Within t (numeralPiece isReal lexeme, n) := by
  unfold numeralPiece
  dsimp only
  split
  · next v hv =>
    refine .token ?_ hn
    cases isReal
    · obtain ⟨i, -, rfl⟩ := Option.map_eq_some_iff.1 hv
      exact .numero i
    · obtain ⟨x, -, rfl⟩ := Option.map_eq_some_iff.1 hv
      exact .tipik x
  · exact .fault hn

theorem within_numberPiece (s : Text) : Within s (numberPiece s) := by
  have hsize := mantissa_le s
  unfold numberPiece
  dsimp only
  split
  · next e rest hrest =>
    have hlen := congrArg List.length hrest
    simp only [List.length_drop, List.length_cons] at hlen
    split
    · -- behind the `e` come an optional sign and the digits of the exponent
      generalize hsign : (if rest.head? == some (byte '+') || rest.head? == some (byte '-') then 1 else 0) = signSize
      have hsigned : signSize ≤ rest.length := by
        cases rest with
        | nil => simp [← hsign]
        | cons b rest => subst hsign; split <;> simp
      have hdigits := length_takeWhile_le isDigit (rest.drop signSize)
      rw [List.length_drop] at hdigits
      split
      · exact .fault (by omega)
      · exact within_numeralPiece true _ (by omega)
    · exact within_numeralPiece _ _ hsize
  · exact within_numeralPiece _ _ hsize

/-! ## Words and signs -/

theorem spelled?_mem {table : List (String × Kind)} {t : Text} {kind : Kind} (h : spelled? table t = some kind) :
    ∃ spelling, (spelling, kind) ∈ table := by
  obtain ⟨entry, hentry, rfl⟩ := Option.map_eq_some_iff.1 h
  exact ⟨entry.1, List.mem_of_find?_eq_some hentry⟩

theorem carries_keyword {t : Text} {kind : Kind} (h : spelled? keywords t = some kind) : Carries kind none := by
  obtain ⟨spelling, hmem⟩ := spelled?_mem h
  exact .bare ((by decide : ∀ entry ∈ keywords, entry.2 ∉ [Kind.eof, .string, .escape, .char, .number]) _ hmem)

theorem within_phrase? {word following : Text} {kind : Kind} {n : Nat} (h : phrase? word following = some (kind, n)) :
    Within following (.token kind none, n) := by
  unfold phrase? at h
  split at h
  · next rest =>
    obtain ⟨found, hfound, heq⟩ := Option.map_eq_some_iff.1 h
    obtain ⟨rfl, rfl⟩ := Prod.mk.inj heq
    obtain ⟨spelling, hmem⟩ := spelled?_mem hfound
    refine .token (.bare ?_) (Nat.succ_le_succ (length_takeWhile_le _ rest))
    exact (by decide : ∀ entry ∈ phrases, entry.2 ∉ [Kind.eof, .string, .escape, .char, .number]) _ hmem
  · cases h

theorem within_wordPiece (b : UInt8) (t : Text) : Within t (wordPiece b t) := by
  have htail := length_takeWhile_le isWordByte t
  unfold wordPiece
  dsimp only
  split
  · next kind n hphrase =>
    have hwithin := within_phrase? hphrase
    have hn := hwithin.size_le
    simp only [List.length_drop] at hn
    exact .token (hwithin.carries rfl) (by omega)
  · refine .token ?_ htail
    cases hkeyword : spelled? keywords (b :: t.takeWhile isWordByte) with
    | none => exact .bare (by decide)
    | some kind => exact carries_keyword hkeyword

theorem within_sign? {s : Text} {kind : Kind} {n : Nat} (h : sign? s = some (kind, n)) :
    Within s (.token kind none, n) := by
  obtain ⟨entry, hentry, heq⟩ := Option.map_eq_some_iff.1 h
  obtain ⟨rfl, rfl⟩ := Prod.mk.inj heq
  have hspelled : (ofString entry.1).isPrefixOf s = true := by simpa using List.find?_some hentry
  refine .token (.bare ?_) (List.isPrefixOf_iff_prefix.1 hspelled).length_le
  exact (by decide : ∀ entry ∈ signs, entry.2 ∉ [Kind.eof, .string, .escape, .char, .number]) _
    (List.mem_of_find?_eq_some hentry)

/-- A character takes no more bytes than there are. -/
theorem utf8Size_le_of_front? {t : Text} {c : Char} (h : front? t = some c) : c.utf8Size ≤ t.length := by
  have hsize := ByteArray.le_size_of_utf8DecodeChar?_eq_some h
  rw [List.size_toByteArray, List.length_take] at hsize
  omega

/-- A segment takes no byte behind the end of the source. -/
theorem within_pieceAt (before : Before) (b : UInt8) (t : Text) : Within t (pieceAt before b t) := by
  have hshift : ∀ {piece : Piece} {n : Nat}, Within (b :: t) (piece, n) → Within t (piece, n - 1) := by
    intro piece n h
    have hn := h.size_le
    simp only [List.length_cons] at hn
    cases h with
    | token hc _ => exact .token hc (by omega)
    | blank _ => exact .blank (by omega)
    | comment _ => exact .comment (by omega)
    | fault _ => exact .fault (by omega)
  unfold pieceAt
  split
  · next hminus =>
    split
    · -- the second minus sign
      cases t with
      | nil => simp at hminus
      | cons b' t => exact .token (.bare (by decide)) (by simp)
    · exact .comment (length_takeWhile_le _ t)
  · split
    · exact .blank (Nat.zero_le _)
    · split
      · exact within_stringPiece t
      · split
        · exact within_charPiece t
        · split
          · exact within_escapePiece t
          · split
            · exact hshift (within_numberPiece (b :: t))
            · split
              · exact within_wordPiece b t
              · split
                · next kind n hsign => exact hshift (within_sign? hsign)
                · refine .fault ?_
                  cases hfront : front? (b :: t) with
                  | none => simp
                  | some c =>
                    have hsize := utf8Size_le_of_front? hfront
                    simp only [List.length_cons] at hsize
                    simp only [Option.elim_some]
                    omega

/-! ## All segments -/

/-- The segments stand one behind the other from one offset to another, and none
is empty. -/
def Tiles (start stop : Nat) : List Segment → Prop
  | [] => start = stop
  | s :: more => s.pos = start ∧ s.bytes ≠ [] ∧ Tiles (start + s.bytes.length) stop more

theorem tiles_segmentsFrom (before : Before) (pos line : Nat) (t : Text) :
    Tiles pos (pos + t.length) (segmentsFrom before pos line t) := by
  fun_induction segmentsFrom before pos line t with
  | case1 before pos line => simp [Tiles]
  | case2 before pos line b t found segment ih =>
    have hsize : found.2 ≤ t.length := (within_pieceAt before b t).size_le
    have hbytes : segment.bytes.length = found.2 + 1 := by simp [segment, hsize]
    refine ⟨rfl, List.cons_ne_nil _ _, ?_⟩
    have hstop : pos + (b :: t).length = pos + segment.bytes.length + (t.drop found.2).length := by
      simp only [hbytes, List.length_cons, List.length_drop]
      omega
    rw [hstop]
    exact ih

theorem bytes_segmentsFrom (before : Before) (pos line : Nat) (t : Text) :
    (segmentsFrom before pos line t).flatMap (·.bytes) = t := by
  fun_induction segmentsFrom before pos line t with
  | case1 before pos line => rfl
  | case2 before pos line b t found segment ih =>
    rw [List.flatMap_cons, ih]
    simp [segment]

theorem carries_segmentsFrom {before : Before} {pos line : Nat} {t : Text} {s : Segment} {kind : Kind}
    {literal : Option Value} (hs : s ∈ segmentsFrom before pos line t) (hp : s.piece = .token kind literal) :
    Carries kind literal := by
  fun_induction segmentsFrom before pos line t with
  | case1 before pos line => cases hs
  | case2 before pos line b t found segment ih =>
    rcases List.mem_cons.1 hs with rfl | hs
    · exact (within_pieceAt before b t).carries hp
    · exact ih hs

theorem bytes_ne_nil_segmentsFrom {before : Before} {pos line : Nat} {t : Text} {s : Segment}
    (hs : s ∈ segmentsFrom before pos line t) : s.bytes ≠ [] := by
  fun_induction segmentsFrom before pos line t with
  | case1 before pos line => cases hs
  | case2 before pos line b t found segment ih =>
    rcases List.mem_cons.1 hs with rfl | hs
    · exact List.cons_ne_nil _ _
    · exact ih hs

/-- The tokens of a source: those of its segments, and one for its end. -/
theorem tokens_scan (source : Text) : ∃ body last, (scan source).tokens = body ++ [last] ∧ last.kind = .eof ∧
    last.pos = some source.length ∧ ∀ t ∈ body, Carries t.kind t.literal ∧ t.lexeme ≠ [] := by
  refine ⟨(segments source).filterMap Segment.token?, _, rfl, rfl, rfl, fun t ht => ?_⟩
  obtain ⟨s, hs, heq⟩ := List.mem_filterMap.1 ht
  unfold Segment.token? at heq
  split at heq
  · next hp =>
    obtain rfl := Option.some.inj heq
    exact ⟨carries_segmentsFrom hs hp, bytes_ne_nil_segmentsFrom hs⟩
  · cases heq

end BisayaPlus.Scan
