import BisayaPlus.Proofs.LineNumbers
/-!
# Character literals

A character between apostrophes is a literal with its code, and a character
between brackets an escape with its text, apart from the letters that stand for
controls. The apostrophes take any character but the line feed, the apostrophe
and the replacement character, which is refused as if it were none. The brackets
count bytes and not characters, so that they take ASCII characters only.
-/

set_option autoImplicit false

namespace BisayaPlus

open Text Scan

/-! ## Sources of one segment -/

/-- A text between two delimiters. -/
def enclosed (opening : Char) (t : Text) (closing : Char) : Text := byte opening :: (t ++ [byte closing])

/-- What is scanned if the source is one token with a literal. -/
def Scanned.single (source : Text) (kind : Kind) (literal : Value) : Scanned where
  tokens := [{ kind := kind, lexeme := source, literal := some literal, line := 1, pos := some 0 },
    { kind := .eof, lexeme := [], line := 1, pos := some source.length }]
  diagnostics := []
  lastLine := 1

/-- What is scanned if the source is at fault as a whole. -/
def Scanned.refused (source : Text) (fault : ScanFault) : Scanned where
  tokens := [{ kind := .eof, lexeme := [], line := 1, pos := some source.length }]
  diagnostics := [{ phase := .reading, line := 1, place := (" at '" : String) ++ source ++ ("'" : String),
                    message := fault.message }]
  lastLine := 1

theorem Scanned.refused_ne_single (source : Text) (fault : ScanFault) (kind : Kind) (literal : Value) :
    refused source fault ≠ single source kind literal := by
  intro h
  have hreports := congrArg diagnostics h
  cases hreports

section Whole

variable {b : UInt8} {t : Text} {piece : Piece}

theorem segments_whole (h : pieceAt {} b t = (piece, t.length)) : segments (b :: t) = [⟨piece, b :: t, 0, 1⟩] := by
  rw [segments, segmentsFrom_cons h, List.take_length, List.drop_length, segmentsFrom]

theorem lines_whole (h : pieceAt {} b t = (piece, t.length)) (hline : lineFeed ∉ b :: t) :
    Segment.endLine ⟨piece, b :: t, 0, 1⟩ = 1 ∧ lineAfter 1 [⟨piece, b :: t, 0, 1⟩] = 1 := by
  have hfeeds : lineFeeds (b :: t) = 0 := lineFeeds_eq_zero hline
  constructor
  · exact Segment.endLine_of_lineFeeds hfeeds
  · rw [← segments_whole h, segments, lineAfter_segmentsFrom, hfeeds]

theorem scan_single {kind : Kind} {literal : Value} (h : pieceAt {} b t = (.token kind (some literal), t.length))
    (hline : lineFeed ∉ b :: t) : scan (b :: t) = .single (b :: t) kind literal := by
  obtain ⟨hend, hlast⟩ := lines_whole h hline
  rw [scan, segments_whole h]
  simp [Segment.token?, Segment.diagnostic?, hend, hlast, Scanned.single]

theorem scan_refused {fault : ScanFault} (h : pieceAt {} b t = (.fault fault, t.length)) (hline : lineFeed ∉ b :: t) :
    scan (b :: t) = .refused (b :: t) fault := by
  obtain ⟨hend, hlast⟩ := lines_whole h hline
  -- the report quotes the first line, which is all there is
  have hquoted : (b :: t).takeWhile (· != lineFeed) = b :: t := by
    have hall : ∀ c ∈ b :: t, (c != lineFeed) = true := fun c hc => bne_iff_ne.2 fun h => hline (h ▸ hc)
    have htake := takeWhile_append_stop (u := []) hall (by simp)
    rwa [List.append_nil] at htake
  rw [scan, segments_whole h]
  simp [Segment.token?, Segment.diagnostic?, hend, hlast, hquoted, Scanned.refused]

end Whole

/-! ## Bytes of a character -/

section Bytes

variable {c d : Char}

theorem toNat_byte (h : c.toNat < 128) : (byte c).toNat = c.toNat := by
  rw [byte, Nat.toUInt8, UInt8.toNat_ofNat']
  omega

theorem byte_ne (hc : c.toNat < 128) (hd : d.toNat < 128) (h : c ≠ d) : byte c ≠ byte d := fun heq =>
  h (Char.toNat_inj.1 (by rw [← toNat_byte hc, heq, toNat_byte hd]))

theorem byte_not_mem_ofChar (hd : d.toNat < 128) (h : c ≠ d) : byte d ∉ ofChar c := by
  intro hmem
  have htoNat : c.toNat = (byte d).toNat := toNat_of_mem_ofChar (by rwa [toNat_byte hd]) hmem
  exact h (Char.toNat_inj.1 (htoNat.trans (toNat_byte hd)))

theorem ofChar_ascii (h : c.toNat < 128) : ofChar c = [byte c] := by
  have hval : c.val.toNat ≤ 0x7F := Nat.le_of_lt_succ h
  rw [ofChar, String.utf8EncodeChar, if_pos hval]
  rfl

/-- A character beyond ASCII takes at least two bytes. -/
theorem ofChar_wide (h : ¬ c.toNat < 128) : ∃ first second more, ofChar c = first :: second :: more := by
  have hval : ¬ c.val.toNat ≤ 0x7F := fun hle => h (Nat.lt_succ_of_le hle)
  rw [ofChar, String.utf8EncodeChar, if_neg hval]
  split
  · exact ⟨_, _, _, rfl⟩
  · split <;> exact ⟨_, _, _, rfl⟩

/-- A character that does not close the literal is all that stands before its
end. -/
theorem takeWhile_ofChar (hd : d.toNat < 128) (hc : c ≠ d) (hline : c ≠ '\n') :
    (ofChar c ++ [byte d]).takeWhile (fun b => b != byte d && b != lineFeed) = ofChar c := by
  refine takeWhile_append_stop (fun b hb => ?_) (by simp)
  have hclosing : b ≠ byte d := fun h => byte_not_mem_ofChar hd hc (h ▸ hb)
  have hfeed : b ≠ lineFeed := fun h => lineFeed_not_mem_ofChar hline (h ▸ hb)
  simp [hclosing, hfeed]

theorem lineFeed_not_mem_enclosed {opening closing : Char} (h : c ≠ '\n') (hopening : lineFeed ≠ byte opening)
    (hclosing : lineFeed ≠ byte closing) : lineFeed ∉ enclosed opening (ofChar c) closing := by
  simp [enclosed, hopening, hclosing, lineFeed_not_mem_ofChar h]

end Bytes

/-! ## Between apostrophes -/

section Literals

variable {c : Char}

theorem single?_ofChar_replacement : single? (ofChar replacement) = none := by decide +kernel

theorem charPiece_ofChar (hquote : c ≠ '\'') (hline : c ≠ '\n') :
    charPiece (ofChar c ++ [byte '\'']) =
      (if c = replacement then .fault .invalidCharacter else .token .char (some (.letra (Int32.ofInt c.toNat))),
        (ofChar c ++ [byte '\'']).length) := by
  rw [charPiece, takeWhile_ofChar (by decide) hquote hline, List.drop_left]
  by_cases hc : c = replacement
  · simp [hc, single?_ofChar_replacement]
  · simp [hc, single?_ofChar hc]

/-- Only the replacement character is refused. -/
theorem scan_quoted (hquote : c ≠ '\'') (hline : c ≠ '\n') :
    scan (enclosed '\'' (ofChar c) '\'') =
      if c = replacement then .refused (enclosed '\'' (ofChar c) '\'') .invalidCharacter
      else .single (enclosed '\'' (ofChar c) '\'') .char (.letra (Int32.ofInt c.toNat)) := by
  have hfree : lineFeed ∉ enclosed '\'' (ofChar c) '\'' := lineFeed_not_mem_enclosed hline (by decide) (by decide)
  have hpiece : pieceAt {} (byte '\'') (ofChar c ++ [byte '\'']) = charPiece (ofChar c ++ [byte '\'']) := rfl
  rw [charPiece_ofChar hquote hline] at hpiece
  by_cases hc : c = replacement
  · rw [if_pos hc] at hpiece ⊢
    exact scan_refused hpiece hfree
  · rw [if_neg hc] at hpiece ⊢
    exact scan_single hpiece hfree

/-! ## Between brackets -/

/-- The text that an escape with this character stands for. -/
def escapeText (c : Char) : Text :=
  if c = 'n' then "\n" else if c = 't' then "\t" else if c = 'r' then "\r" else ofChar c

theorem escapeText_ascii (h : c.toNat < 128) : escapeText c = [escapeValue (byte c)] := by
  by_cases hn : c = 'n'
  · rw [hn]; rfl
  by_cases ht : c = 't'
  · rw [ht]; rfl
  by_cases hr : c = 'r'
  · rw [hr]; rfl
  have hplain : escapeValue (byte c) = byte c :=
    escapeValue.eq_4 _ (byte_ne h (by decide) hn) (byte_ne h (by decide) ht) (byte_ne h (by decide) hr)
  rw [escapeText, if_neg hn, if_neg ht, if_neg hr, ofChar_ascii h, hplain]

theorem escapePiece_ofChar (hline : c ≠ '\n') :
    escapePiece (ofChar c ++ [byte ']']) =
      (if c.toNat < 128 then .token .escape (some (.pulong (escapeText c))) else .fault .invalidEscape,
        (ofChar c ++ [byte ']']).length) := by
  by_cases hbracket : c = ']'
  · -- nothing stands before the first closing bracket, and a second one follows
    subst hbracket
    decide +kernel
  · rw [escapePiece, takeWhile_ofChar (by decide) hbracket hline, List.drop_left]
    by_cases hascii : c.toNat < 128
    · rw [ofChar_ascii hascii, escapeText_ascii hascii]
      simp [hascii, byte]
    · obtain ⟨first, second, more, hwide⟩ := ofChar_wide hascii
      rw [hwide]
      simp [hascii, byte]

/-- Every character of more than one byte is refused. -/
theorem scan_bracketed (hline : c ≠ '\n') :
    scan (enclosed '[' (ofChar c) ']') =
      if c.toNat < 128 then .single (enclosed '[' (ofChar c) ']') .escape (.pulong (escapeText c))
      else .refused (enclosed '[' (ofChar c) ']') .invalidEscape := by
  have hfree : lineFeed ∉ enclosed '[' (ofChar c) ']' := lineFeed_not_mem_enclosed hline (by decide) (by decide)
  have hpiece : pieceAt {} (byte '[') (ofChar c ++ [byte ']']) = escapePiece (ofChar c ++ [byte ']']) := rfl
  rw [escapePiece_ofChar hline] at hpiece
  by_cases hc : c.toNat < 128
  · rw [if_pos hc] at hpiece ⊢
    exact scan_single hpiece hfree
  · rw [if_neg hc] at hpiece ⊢
    exact scan_refused hpiece hfree

end Literals

/-! ## Literals of one character -/

/-- Which characters can be written as literals. Between apostrophes these are
all but the apostrophe, the line feed and the replacement character, and between
brackets the ASCII ones but the line feed. Any other character is refused
together with what encloses it. -/
theorem scan_character (c : Char) (hline : c ≠ '\n') :
    let quoted := enclosed '\'' (ofChar c) '\''
    let bracketed := enclosed '[' (ofChar c) ']'
    (c ≠ '\'' → scan quoted =
      if c = replacement then .refused quoted .invalidCharacter
      else .single quoted .char (.letra (Int32.ofInt c.toNat))) ∧
    scan bracketed =
      if c.toNat < 128 then .single bracketed .escape (.pulong (escapeText c))
      else .refused bracketed .invalidEscape := by
  intro quoted bracketed
  exact ⟨fun hquote => scan_quoted hquote hline, scan_bracketed hline⟩

/-- An accented letter is a literal between apostrophes and none between
brackets. -/
theorem scan_character_accented :
    'é' ≠ '\n' ∧
      scan (enclosed '\'' (ofChar 'é') '\'') = .single (enclosed '\'' (ofChar 'é') '\'') .char (.letra 233) ∧
      scan (enclosed '[' (ofChar 'é') ']') = .refused (enclosed '[' (ofChar 'é') ']') .invalidEscape := by
  have hline : 'é' ≠ '\n' := by decide
  have hplain : 'é' ≠ replacement := by decide
  have hwide : ¬ ('é').toNat < 128 := by decide
  obtain ⟨hquoted, hbracketed⟩ := scan_character 'é' hline
  exact ⟨hline, (hquoted (by decide)).trans (if_neg hplain), hbracketed.trans (if_neg hwide)⟩

/-- The replacement character is no literal between apostrophes, and an accented
letter none between brackets. -/
theorem scan_character_fails :
    scan (enclosed '\'' (ofChar '�') '\'') ≠
      .single (enclosed '\'' (ofChar '�') '\'') .char (.letra 0xFFFD) ∧
    scan (enclosed '[' (ofChar 'é') ']') ≠ .single (enclosed '[' (ofChar 'é') ']') .escape (.pulong (ofChar 'é')) := by
  constructor
  · rw [scan_quoted (by decide) (by decide), if_pos (by decide)]
    exact Scanned.refused_ne_single _ _ _ _
  · rw [scan_bracketed (by decide), if_neg (by decide)]
    exact Scanned.refused_ne_single _ _ _ _

end BisayaPlus
