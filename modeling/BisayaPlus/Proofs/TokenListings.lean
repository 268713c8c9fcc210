import BisayaPlus.Proofs.DecimalNumerals
import BisayaPlus.Proofs.LineNumbers
/-!
# Token listings

Tokens are listed one on a line, each with its lexeme in quotes. Quoted texts
and numerals have no line feed in them. The text of a literal is shown without
quotes, and there a line feed in a text, or the one that `[n]` stands for,
breaks the line of its token.
-/

set_option autoImplicit false

namespace BisayaPlus

open Text Scan

/-! ## Texts without line feeds -/

namespace Text

theorem lineFeed_not_mem_ofNat (n : Nat) : lineFeed ∉ ofNat n :=
  lineFeed_not_mem_of_all (p := isDigit) (by decide) fun _ => Numeral.isDigit_of_mem_ofNat

theorem lineFeed_not_mem_ofInt (i : Int) : lineFeed ∉ ofInt i := by
  cases i with
  | ofNat n => exact lineFeed_not_mem_ofNat n
  | negSucc n => exact List.not_mem_cons_of_ne_of_not_mem (by decide) (lineFeed_not_mem_ofNat (n + 1))

theorem lineFeed_not_mem_toDigits (n : Nat) : lineFeed ∉ (Nat.toDigits 16 n).map byte := by
  have htable : ∀ d : Fin 16, lineFeed ≠ byte (Nat.digitChar d) := by decide
  induction n using Nat.strongRecOn with
  | _ n ih =>
    by_cases hn : n < 16
    · rw [Nat.toDigits_of_lt_base hn]
      exact List.not_mem_cons_of_ne_of_not_mem (htable ⟨n, hn⟩) List.not_mem_nil
    · rw [Nat.toDigits_of_base_le (by decide) (by omega), List.map_append, List.mem_append, not_or]
      exact ⟨ih (n / 16) (by omega),
        List.not_mem_cons_of_ne_of_not_mem (htable ⟨n % 16, Nat.mod_lt n (by decide)⟩) List.not_mem_nil⟩

theorem lineFeed_not_mem_hex (width n : Nat) : lineFeed ∉ hex width n := by
  have hzero : lineFeed ≠ byte '0' := by decide
  simp only [hex, List.mem_append, List.mem_replicate, not_or, not_and]
  exact ⟨fun _ => hzero, lineFeed_not_mem_toDigits n⟩

/-- Neither a character nor a stray byte is quoted with a line feed: the line
feed itself has an escape. -/
theorem Glyph.lineFeed_not_mem_quoted (g : Glyph) : lineFeed ∉ g.quoted := by
  have hslash : lineFeed ≠ byte '\\' := by decide
  have hletters : lineFeed ≠ byte 'x' ∧ lineFeed ≠ byte 'u' ∧ lineFeed ≠ byte 'U' := by decide
  have hcode {letter : UInt8} (hletter : lineFeed ≠ letter) (width n : Nat) :
      lineFeed ∉ byte '\\' :: letter :: hex width n := by
    simp only [List.mem_cons, not_or]
    exact ⟨hslash, hletter, lineFeed_not_mem_hex width n⟩
  cases g with
  | stray b => exact hcode hletters.1 2 b.toNat
  | char c =>
    rw [quoted]
    split
    · next hc =>
      simp only [Bool.or_eq_true, beq_iff_eq] at hc
      rcases hc with rfl | rfl <;> decide
    · split
      · next hprintable =>
        refine lineFeed_not_mem_ofChar ?_
        rintro rfl
        exact absurd hprintable (by decide +kernel)
      · split
        · next letter hletter =>
          have htable : ∀ entry ∈ controlLetters, lineFeed ∉ [byte '\\', byte entry.2] := by decide
          obtain ⟨before, after, hentries, -⟩ := List.lookup_eq_some_iff.1 hletter
          exact htable (c, letter) (by simp [hentries])
        · split
          · exact hcode hletters.1 2 c.toNat
          · split
            · exact hcode hletters.2.1 4 c.toNat
            · exact hcode hletters.2.2 8 c.toNat

theorem lineFeed_not_mem_quote (t : Text) : lineFeed ∉ quote t := by
  have hquote : lineFeed ≠ byte '"' := by decide
  simp only [quote, List.cons_append, List.mem_cons, List.mem_append, List.mem_flatMap, List.not_mem_nil, or_false,
    not_or]
  exact ⟨hquote, fun ⟨g, _, hg⟩ => g.lineFeed_not_mem_quoted hg, hquote⟩

end Text

namespace Binary64

theorem lineFeed_not_mem_withoutZeros (d : Nat) : lineFeed ∉ withoutZeros d := by
  intro hmem
  simp only [withoutZeros, trimRight, List.mem_reverse] at hmem
  exact lineFeed_not_mem_ofNat d (List.mem_reverse.1 ((List.dropWhile_suffix _).subset hmem))

/-- Digits with a point among them. -/
theorem lineFeed_not_mem_pointed {digits : Text} (h : lineFeed ∉ digits) (n : Nat) :
    lineFeed ∉ digits.take n ++ byte '.' :: digits.drop n := by
  have hpoint : lineFeed ≠ byte '.' := by decide
  simp only [List.mem_append, List.mem_cons, not_or]
  exact ⟨fun hmem => h (List.mem_of_mem_take hmem), hpoint, fun hmem => h (List.mem_of_mem_drop hmem)⟩

theorem lineFeed_not_mem_plain {digits : Text} (h : lineFeed ∉ digits) (exponent : Int) :
    lineFeed ∉ plain digits exponent := by
  have hzero : lineFeed ≠ 48 := by decide
  unfold plain
  dsimp only
  split
  · have hstart : lineFeed ∉ ofString "0." := by decide
    simp [hstart, hzero, h]
  · split
    · simp [hzero, h]
    · exact lineFeed_not_mem_pointed h _

theorem lineFeed_not_mem_scientific {digits : Text} (h : lineFeed ∉ digits) (exponent : Int) :
    lineFeed ∉ scientific digits exponent := by
  have hzero : lineFeed ≠ 48 := by decide
  have hletter : lineFeed ≠ byte 'e' := by decide
  have hsign : lineFeed ≠ byte (if exponent < 0 then '-' else '+') := by split <;> decide
  have hpower := lineFeed_not_mem_ofNat exponent.natAbs
  unfold scientific
  simp only [List.mem_append, List.mem_cons, not_or]
  refine ⟨?_, hletter, hsign, ?_⟩
  · split
    · exact h
    · exact lineFeed_not_mem_pointed h _
  · split
    · exact List.not_mem_cons_of_ne_of_not_mem hzero hpower
    · exact hpower

theorem lineFeed_not_mem_write (isPlain : Int → Bool) (x : Binary64) : lineFeed ∉ x.write isPlain := by
  unfold write
  split
  · decide
  · split
    · split <;> decide
    · have hdigits : lineFeed ∉ (if x.isZero then ([48], 0) else shortest x.magnitude : Text × Int).1 := by
        split
        · decide
        · exact lineFeed_not_mem_withoutZeros _
      generalize (if x.isZero then ([48], 0) else shortest x.magnitude : Text × Int) = found at hdigits
      obtain ⟨digits, exponent⟩ := found
      have hbody : lineFeed ∉ if isPlain exponent then plain digits exponent else scientific digits exponent := by
        split
        · exact lineFeed_not_mem_plain hdigits exponent
        · exact lineFeed_not_mem_scientific hdigits exponent
      dsimp only
      split
      · exact List.not_mem_cons_of_ne_of_not_mem (by decide) hbody
      · exact hbody

end Binary64

/-! ## Lines -/

/-- Cut at its line feeds, the text is these lines, and nothing follows the last
line feed. -/
def IsLines (text : Text) (lines : List Text) : Prop := pieces lineFeed text = lines ++ [[]]

theorem Text.length_pieces (sep : UInt8) (t : Text) : (pieces sep t).length = t.count sep + 1 := by
  fun_induction pieces sep t with
  | case1 => rfl
  | case2 b t hb ih => rw [List.length_cons, ih, List.count_cons, if_pos hb]
  | case3 b t hb hnone ih =>
    rw [hnone] at ih
    cases ih
  | case4 b t hb piece more hpieces ih =>
    rw [hpieces] at ih
    rw [List.count_cons, if_neg hb, Nat.add_zero, ← ih]
    rfl

theorem IsLines.lineFeeds_eq {text : Text} {lines : List Text} (h : IsLines text lines) :
    lineFeeds text = lines.length := by
  have hlength := length_pieces lineFeed text
  rw [h, List.length_append] at hlength
  exact (Nat.succ.inj hlength).symm

/-- Texts written with a line feed behind each are the lines of the whole if and
only if none of them has a line feed of its own. -/
theorem isLines_flatMap_iff {α : Type} (write : α → Text) (items : List α) :
    IsLines (items.flatMap fun item => write item ++ [lineFeed]) (items.map write) ↔
      ∀ item ∈ items, lineFeed ∉ write item := by
  constructor
  · intro h item hitem
    have hfree := (separated_pieces lineFeed (items.flatMap fun item => write item ++ [lineFeed])).free
    rw [h] at hfree
    exact hfree _ (List.mem_append_left _ (List.mem_map_of_mem hitem))
  · intro h
    induction items with
    | nil => rfl
    | cons item items ih =>
      obtain ⟨hitem, hmore⟩ := List.forall_mem_cons.1 h
      have hmore' : pieces lineFeed (items.flatMap fun item => write item ++ [lineFeed]) = items.map write ++ [[]] :=
        ih hmore
      rw [IsLines, List.flatMap_cons, List.append_assoc, List.singleton_append, pieces_append hitem, hmore']
      rfl

/-- The line feeds of such a whole are one for each text and those of the texts,
which may be counted in other texts with as many. -/
theorem lineFeeds_flatMap {α : Type} {write counted : α → Text}
    (h : ∀ item, lineFeeds (write item) = lineFeeds (counted item)) (items : List α) :
    lineFeeds (items.flatMap fun item => write item ++ [lineFeed]) =
      items.length + lineFeeds (items.flatMap counted) := by
  induction items with
  | nil => rfl
  | cons item items ih =>
    have hfeed : lineFeeds [lineFeed] = 1 := rfl
    rw [List.flatMap_cons, List.flatMap_cons, lineFeeds_append, lineFeeds_append, lineFeeds_append, ih, h, hfeed,
      List.length_cons]
    omega

/-! ## Tokens -/

/-- The part of a value that a token listing writes as it is: a text. -/
def Value.unquoted : Value → Text
  | pulong t => t
  | _ => []

namespace Token

/-- The part of a token's line that is written as it is. -/
def unquoted (t : Token) : Text := t.literal.elim [] Value.unquoted

theorem lineFeed_not_mem_name (kind : Kind) : lineFeed ∉ kind.name := by
  cases kind with
  | unnamed code =>
    have hopening : lineFeed ∉ ofString "tokenType(" := by decide
    have hclosing : lineFeed ∉ ofString ")" := by decide
    have hname : (Kind.unnamed code).name = ofString "tokenType(" ++ ofInt code ++ ofString ")" := rfl
    rw [hname]
    simp [hopening, hclosing, lineFeed_not_mem_ofInt code]
  | _ => decide

theorem lineFeeds_listedValue (v : Value) : lineFeeds (listedValue v) = lineFeeds v.unquoted := by
  cases v with
  | null => rfl
  | numero i => exact lineFeeds_eq_zero (lineFeed_not_mem_ofInt _)
  | tipik x => exact lineFeeds_eq_zero (x.lineFeed_not_mem_write _)
  | letra code => exact lineFeeds_eq_zero (lineFeed_not_mem_ofInt _)
  | tinuod b => cases b <;> rfl
  | pulong t => rfl

/-- The line feeds in a token's line are those of the text it shows unquoted. -/
theorem lineFeeds_listed (t : Token) : lineFeeds t.listed = lineFeeds t.unquoted := by
  have hspace : lineFeeds (ofString " ") = 0 := rfl
  have hline := lineFeeds_eq_zero (lineFeed_not_mem_ofNat t.line)
  have hname := lineFeeds_eq_zero (lineFeed_not_mem_name t.kind)
  have hlexeme := lineFeeds_eq_zero (lineFeed_not_mem_quote t.lexeme)
  rw [listed, unquoted]
  simp only [lineFeeds_append, hspace, hline, hname, hlexeme, Nat.zero_add]
  cases t.literal with
  | none => rfl
  | some v =>
    dsimp only [Option.elim_some]
    rw [lineFeeds_append, hspace, Nat.zero_add, lineFeeds_listedValue]

theorem lineFeed_mem_listed_iff (t : Token) : lineFeed ∈ t.listed ↔ lineFeed ∈ t.unquoted := by
  rw [← List.count_pos_iff, ← List.count_pos_iff]
  exact Iff.of_eq (congrArg (0 < ·) t.lineFeeds_listed)

end Token

/-- A token of a source marks its end, or carries what its bytes stand for. -/
theorem Scan.denotes_of_mem {source : Text} {t : Token} (ht : t ∈ (scan source).tokens) :
    (t.kind = .eof ∧ t.lexeme = [] ∧ t.literal = none) ∨ Denotes t.kind t.lexeme t.literal := by
  rcases List.mem_append.1 ht with ht | ht
  · obtain ⟨s, hs, htoken⟩ := List.mem_filterMap.1 ht
    obtain ⟨start, state, b, u, n, -, -, -, hpiece, hbytes⟩ := exists_cut hs
    unfold Segment.token? at htoken
    split at htoken
    · next kind literal heq =>
      obtain rfl := Option.some.inj htoken
      rw [heq] at hpiece
      exact .inr (hbytes ▸ denotes_pieceAt hpiece)
    · cases htoken
  · obtain rfl := List.mem_singleton.1 ht
    exact .inl ⟨rfl, rfl, rfl⟩

theorem Scan.escapeValue_eq_lineFeed {b : UInt8} (hb : b ≠ lineFeed) : escapeValue b = lineFeed ↔ b = byte 'n' := by
  unfold escapeValue
  split
  · exact iff_of_true rfl rfl
  · exact iff_of_false (by decide) (by decide)
  · exact iff_of_false (by decide) (by decide)
  · next hn _ _ => exact iff_of_false hb hn

/-- Only the escape with the letter `n` stands for a line feed. -/
theorem Scan.lineFeed_mem_escape_iff {body : Text} (hshort : body.length ≤ 1) (hline : lineFeed ∉ body) :
    lineFeed ∈ body.map escapeValue ↔ byte '[' :: (body ++ [byte ']']) = "[n]" := by
  have htext : ofString "[n]" = [byte '[', byte 'n', byte ']'] := rfl
  rcases body with _ | ⟨b, _ | ⟨b', body⟩⟩
  · exact iff_of_false List.not_mem_nil (by decide)
  · have hb : b ≠ lineFeed := fun h => hline (by simp [h])
    rw [List.map_singleton, List.mem_singleton, eq_comm, escapeValue_eq_lineFeed hb, htext]
    simp
  · simp at hshort

/-- The texts that break the line of their token are those that go over the end
of a line, and the line feed of an escape. -/
theorem lineFeed_mem_unquoted_iff {source : Text} {t : Token} (ht : t ∈ (scan source).tokens) :
    lineFeed ∈ t.unquoted ↔ (t.kind = .string ∧ lineFeed ∈ t.lexeme) ∨ (t.kind = .escape ∧ t.lexeme = "[n]") := by
  obtain ⟨kind, lexeme, literal, line, pos⟩ := t
  unfold Token.unquoted
  rcases denotes_of_mem ht with ⟨hkind, -, hliteral⟩ | hdenotes
  · dsimp only at hkind hliteral ⊢
    subst hkind hliteral
    simp
  · dsimp only at hdenotes ⊢
    cases hdenotes with
    | string =>
      have hquote : lineFeed ≠ byte '"' := by decide
      simp [Value.unquoted, hquote]
    | escape hshort hline =>
      rw [Option.elim_some, Value.unquoted, lineFeed_mem_escape_iff hshort hline]
      simp
    | char | numero | tipik => simp [Value.unquoted]
    | bare hspells hkind =>
      simp only [List.mem_cons, List.not_mem_nil, or_false, not_or] at hkind
      simp [hkind]

namespace Program

/-- A token listing has one line for each token if and only if no text goes over
the end of a line and no escape stands for a line feed. In any case its line
feeds are one for each token and those of the texts that are shown unquoted. -/
theorem tokenListing_lines_iff (source : Text) :
    let tokens := (scan source).tokens
    let listing := (ofSource source).tokenListing
    (IsLines listing (tokens.map Token.listed) ↔
      ∀ t ∈ tokens, ¬(t.kind = .string ∧ lineFeed ∈ t.lexeme) ∧ ¬(t.kind = .escape ∧ t.lexeme = "[n]")) ∧
    lineFeeds listing = tokens.length + lineFeeds (tokens.flatMap Token.unquoted) := by
  intro tokens listing
  refine ⟨(isLines_flatMap_iff Token.listed tokens).trans (forall₂_congr fun t ht => ?_),
    lineFeeds_flatMap Token.lineFeeds_listed tokens⟩
  rw [t.lineFeed_mem_listed_iff, lineFeed_mem_unquoted_iff ht, not_or]

/-- The escape `[n]` is listed on two lines. -/
theorem tokenListing_breaks_line :
    (ofSource "[n]").tokenListing = ofString "1 ESCAPE \"[n]\" \n\n1 EOF \"\"\n" ∧
      ¬ IsLines (ofSource "[n]").tokenListing ((scan "[n]").tokens.map Token.listed) := by
  unfold IsLines
  decide +kernel

end Program

end BisayaPlus
