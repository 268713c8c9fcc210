import BisayaPlus.Proofs.Fields
import BisayaPlus.Proofs.LongestLexemes
import BisayaPlus.Proofs.Lossless
/-!
# Line feeds

What tokens stand for and what each report is about, said without the scanner.
It follows that line feeds are found in two places only: as newlines, and
between double quotes, also if the second quote is missing. These are the places
where the scanner counts lines, so its counter always has one more than the
number of line feeds that were passed.
-/

set_option autoImplicit false

namespace BisayaPlus

open Text

namespace Text

variable {t : Text}

theorem lineFeeds_append (t u : Text) : lineFeeds (t ++ u) = lineFeeds t + lineFeeds u := List.count_append

theorem lineFeeds_eq_zero (h : lineFeed ∉ t) : lineFeeds t = 0 := List.count_eq_zero.2 h

theorem lineFeeds_take_add_drop (n : Nat) (t : Text) : lineFeeds (t.take n) + lineFeeds (t.drop n) = lineFeeds t := by
  unfold lineFeeds
  rw [← List.count_append, List.take_append_drop]

/-- A text that starts with a character starts with its bytes. -/
theorem eq_append_of_front? {c : Char} (h : front? t = some c) : ∃ u, t = ofChar c ++ u := by
  obtain ⟨bytes, hbytes⟩ := ByteArray.exists_of_utf8DecodeChar?_eq_some h
  have hfront : t.take 4 = ofChar c ++ bytes.data.toList := by
    simpa [List.data_toByteArray, ofChar] using congrArg (·.data.toList) hbytes
  exact ⟨bytes.data.toList ++ t.drop 4, by rw [← List.append_assoc, ← hfront, List.take_append_drop]⟩

end Text

namespace Scan

/-! ## Ends of lines -/

/-- Nothing, or the line feed of a line. -/
def EndsLine (r : Text) : Prop := ∀ c ∈ r.head?, c = lineFeed

theorem EndsLine.cases {r : Text} (h : EndsLine r) : r = [] ∨ ∃ rest, r = lineFeed :: rest := by
  cases r with
  | nil => exact .inl rfl
  | cons c rest =>
    obtain rfl := h c rfl
    exact .inr ⟨rest, rfl⟩

/-- Two minus signs are a decrement or start a comment. -/
theorem pieceAt_minus (before : Before) (t : Text) : pieceAt before (byte '-') (byte '-' :: t) =
    if isDecrement before t then (.token .minusMinus none, 1)
    else (.comment, ((byte '-' :: t).takeWhile (· != lineFeed)).length) := rfl

theorem pieceAt_lineFeed (before : Before) (t : Text) : pieceAt before lineFeed t = (.token .newline none, 0) := rfl

theorem lineFeed_of_newline {before : Before} {b : UInt8} {t : Text} {literal : Option Value} {n : Nat}
    (h : pieceAt before b t = (.token .newline literal, n)) : b = lineFeed := by
  have htable : ∀ entry ∈ signs, entry.2 = .newline → ofString entry.1 = [lineFeed] := by decide
  have hminus : ¬(b == byte '-' && t.head? == some (byte '-')) = true := by
    intro hminus
    simp only [Bool.and_eq_true, beq_iff_eq] at hminus
    obtain ⟨rfl, hhead⟩ := hminus
    obtain ⟨u, rfl⟩ := List.head?_eq_some_iff.1 hhead
    rw [pieceAt_minus] at h
    split at h <;> cases h
  rcases (cuts_pieceAt hminus h).kind_cases with hkind | ⟨spelling, hmem, hbytes⟩
  · exact absurd hkind (by decide)
  · rw [htable _ hmem rfl] at hbytes
    exact (List.cons.inj hbytes).1

/-! ## What tokens stand for -/

/-- `Denotes kind t literal`: a token of this kind, with these bytes, carries this
literal. -/
inductive Denotes : Kind → Text → Option Value → Prop where
  | string {body : Text} : byte '"' ∉ body → Denotes .string (byte '"' :: (body ++ [byte '"'])) (some (.pulong body))
  | char {c : Char} : c ∉ ['\'', '\n', replacement] →
      Denotes .char (byte '\'' :: (ofChar c ++ [byte '\''])) (some (.letra (Int32.ofInt c.toNat)))
  | escape {body : Text} : body.length ≤ 1 → lineFeed ∉ body →
      Denotes .escape (byte '[' :: (body ++ [byte ']'])) (some (.pulong (body.map escapeValue)))
  | numero {t : Text} {i : Int64} : IsNumeral t → Denotes .number t (some (.numero i))
  | tipik {t : Text} {x : Binary64} : IsNumeral t → Denotes .number t (some (.tipik x))
  | bare {kind : Kind} {t u : Text} : Spells kind t u → kind ∉ [Kind.string, .char, .escape, .number] →
      Denotes kind t none

/-- The text up to a closing byte or the end of the line. -/
theorem exists_closing (q : UInt8) (t : Text) :
    ∃ body u, t.takeWhile (fun b => b != q && b != lineFeed) = body ∧ t = body ++ u ∧ q ∉ body ∧ lineFeed ∉ body ∧
      (EndsLine u ∧ u.head? ≠ some q ∨ ∃ v, u = q :: v) := by
  obtain ⟨u, ht, hbody, hu⟩ := exists_takeWhile (fun b => b != q && b != lineFeed) t
  refine ⟨_, u, rfl, ht, fun hmem => by simpa using hbody _ hmem, fun hmem => by simpa using hbody _ hmem, ?_⟩
  by_cases hq : u.head? = some q
  · exact .inr (List.head?_eq_some_iff.1 hq)
  · refine .inl ⟨fun c hc => ?_, hq⟩
    have hc' : c ≠ q := by
      rintro rfl
      exact hq hc
    simpa [hc'] using hu c hc

/-- A text is closed by a double quote, or it goes on to the end of the source. -/
theorem stringPiece_cases (t : Text) : ∃ body, byte '"' ∉ body ∧
    ((∃ u, t = body ++ byte '"' :: u ∧ stringPiece t = (.token .string (some (.pulong body)), body.length + 1)) ∨
      (t = body ∧ stringPiece t = (.fault .unterminatedString, body.length))) := by
  obtain ⟨u, ht, hbody, hu⟩ := exists_takeWhile (· != byte '"') t
  refine ⟨_, fun hmem => by simpa using hbody _ hmem, ?_⟩
  cases u with
  | nil =>
    rw [List.append_nil] at ht
    exact .inr ⟨ht, by rw [stringPiece, ← ht]; simp⟩
  | cons quote u =>
    obtain rfl : quote = byte '"' := by simpa using hu quote rfl
    have hclosed : (t.takeWhile (· != byte '"')).length < t.length := by
      have hlength := congrArg List.length ht
      rw [List.length_append, List.length_cons] at hlength
      omega
    exact .inl ⟨u, ht, by rw [stringPiece, if_pos hclosed]⟩

theorem eq_ofChar_of_single? {t : Text} {c : Char} (h : single? t = some c) : t = ofChar c ∧ c ≠ replacement := by
  unfold single? at h
  split at h
  · next c' hfront =>
    split at h
    · next hsize =>
      obtain rfl := Option.some.inj h
      simp only [Bool.and_eq_true, beq_iff_eq, bne_iff_ne] at hsize
      obtain ⟨u, rfl⟩ := eq_append_of_front? hfront
      have hlength : (ofChar c').length = c'.utf8Size := String.length_utf8EncodeChar c'
      obtain rfl : u = [] := by
        rw [List.length_append, hlength] at hsize
        exact List.length_eq_zero_iff.1 (by omega)
      exact ⟨List.append_nil _, hsize.2⟩
    · cases h
  · cases h

/-- An apostrophe is closed on its line around one character or around what is
none, or it is not closed there. -/
theorem charPiece_cases (t : Text) : ∃ body u, t = body ++ u ∧ byte '\'' ∉ body ∧ lineFeed ∉ body ∧
    ((EndsLine u ∧ charPiece t = (.fault .unterminatedCharacter, body.length)) ∨
      ∃ v, u = byte '\'' :: v ∧
        ((∃ c, body = ofChar c ∧ c ≠ replacement ∧
            charPiece t = (.token .char (some (.letra (Int32.ofInt c.toNat))), body.length + 1)) ∨
          (single? body = none ∧ charPiece t = (.fault .invalidCharacter, body.length + 1)))) := by
  obtain ⟨body, u, htake, rfl, hquote, hline, hu⟩ := exists_closing (byte '\'') t
  refine ⟨body, u, rfl, hquote, hline, ?_⟩
  unfold charPiece
  simp only [htake, List.drop_left]
  rcases hu with ⟨hend, hopen⟩ | ⟨v, rfl⟩
  · exact .inl ⟨hend, if_neg (by simpa using hopen)⟩
  · refine .inr ⟨v, rfl, ?_⟩
    rw [if_pos (by simp)]
    cases hsingle : single? body with
    | none => exact .inr ⟨rfl, rfl⟩
    | some c =>
      obtain ⟨hbody, hc⟩ := eq_ofChar_of_single? hsingle
      exact .inl ⟨c, hbody, hc, rfl⟩

section Denotes

variable {before : Before} {b : UInt8} {t : Text} {kind : Kind} {literal : Option Value} {n : Nat}

theorem denotes_stringPiece (h : stringPiece t = (.token kind literal, n)) :
    Denotes kind (byte '"' :: t.take n) literal := by
  obtain ⟨body, hquote, ⟨u, rfl, hfound⟩ | ⟨-, hfound⟩⟩ := stringPiece_cases t
  · obtain ⟨hpiece, rfl⟩ := Prod.mk.inj (h.symm.trans hfound)
    obtain ⟨rfl, rfl⟩ := Piece.token.inj hpiece
    rw [take_succ_append]
    exact .string hquote
  · cases h.symm.trans hfound

theorem denotes_charPiece (h : charPiece t = (.token kind literal, n)) :
    Denotes kind (byte '\'' :: t.take n) literal := by
  obtain ⟨body, u, rfl, hquote, hline, ⟨-, hfound⟩ | ⟨v, rfl, ⟨c, rfl, hc, hfound⟩ | ⟨-, hfound⟩⟩⟩ := charPiece_cases t
  · cases h.symm.trans hfound
  · obtain ⟨hpiece, rfl⟩ := Prod.mk.inj (h.symm.trans hfound)
    obtain ⟨rfl, rfl⟩ := Piece.token.inj hpiece
    rw [take_succ_append]
    refine .char ?_
    simp only [List.mem_cons, List.not_mem_nil, or_false, not_or]
    refine ⟨?_, ?_, hc⟩
    · rintro rfl
      exact hquote List.mem_cons_self
    · rintro rfl
      exact hline List.mem_cons_self
  · cases h.symm.trans hfound

theorem wordPiece_literal (h : wordPiece b t = (.token kind literal, n)) : literal = none := by
  unfold wordPiece at h
  dsimp only at h
  split at h <;> exact (Piece.token.inj (Prod.mk.inj h).1).2.symm

theorem Cuts.denotes (h : Cuts b t (.token kind literal, n))
    (hminus : ¬(b == byte '-' && t.head? == some (byte '-')) = true) : Denotes kind (b :: t.take n) literal := by
  have hcuts := h
  cases h with
  | string hb h => exact hb ▸ denotes_stringPiece h
  | char hb h => exact hb ▸ denotes_charPiece h
  | escape hb h =>
    obtain ⟨rfl, body, u, rfl, rfl, hshort, hline, -, rfl⟩ := escapePiece_token h
    rw [hb, take_succ_append]
    exact .escape hshort hline
  | number hb hnumber hfound =>
    obtain ⟨rfl, rfl⟩ := Prod.mk.inj hfound
    obtain ⟨hpos, -⟩ := numberPiece_pos hb
    rw [hnumber] at hpos
    obtain ⟨size, rfl⟩ := Nat.exists_eq_add_one.2 hpos
    have hnumeral : IsNumeral (b :: t.take size) := isNumeral_numberPiece hnumber (mantissa_pos hb).1
    have hcarries := (within_numberPiece (b :: t)).carries (by rw [hnumber])
    obtain rfl : kind = .number := numberPiece_kind (by rw [hnumber])
    cases hcarries with
    | numero i => exact .numero hnumeral
    | tipik x => exact .tipik hnumeral
    | bare hkind => exact absurd (by simp) hkind
  | word hb h =>
    have hkind : kind ∈ wordKinds := wordPiece_kind (congrArg Prod.fst h)
    rw [wordPiece_literal h]
    refine .bare (longest_wordPiece hb h).spells fun hmem => ?_
    have htable : ∀ kind ∈ [Kind.string, .char, .escape, .number], kind ∉ wordKinds := by decide
    exact htable kind hmem hkind
  | @sign found size hsign hfound =>
    obtain ⟨hpiece, rfl⟩ := Prod.mk.inj hfound
    obtain ⟨rfl, rfl⟩ := Piece.token.inj hpiece
    obtain ⟨spelling, hmem, -⟩ := sign?_eq_some hsign
    have htable : ∀ entry ∈ signs, entry.2 ∉ [Kind.string, .char, .escape, .number] := by decide
    have hkind := htable (_, _) hmem
    have hquoted : found ∉ [Kind.string, .char] := fun h => hkind (List.mem_append_left [Kind.escape, .number] h)
    exact .bare (hcuts.longest hquoted hminus).spells hkind

theorem denotes_pieceAt (h : pieceAt before b t = (.token kind literal, n)) : Denotes kind (b :: t.take n) literal := by
  by_cases hminus : (b == byte '-' && t.head? == some (byte '-')) = true
  · simp only [Bool.and_eq_true, beq_iff_eq] at hminus
    obtain ⟨rfl, hhead⟩ := hminus
    obtain ⟨t, rfl⟩ := List.head?_eq_some_iff.1 hhead
    rw [pieceAt_minus] at h
    split at h
    · obtain ⟨hpiece, rfl⟩ := Prod.mk.inj h
      obtain ⟨rfl, rfl⟩ := Piece.token.inj hpiece
      exact .bare (u := t) (.operator .decrement) (by decide)
    · cases h
  · exact (cuts_pieceAt hminus h).denotes hminus

end Denotes

/-! ## What is at fault -/

/-- `Offends fault t u`: the text `t` has this fault where `u` follows. -/
inductive Offends : ScanFault → Text → Text → Prop where
  | character {c : Char} {u : Text} : c ≠ '\n' → Offends .unexpectedCharacter (ofChar c) u
  | stray {b : UInt8} {u : Text} : front? (b :: u) = none → Offends .unexpectedCharacter [b] u
  | openString {body : Text} : byte '"' ∉ body → Offends .unterminatedString (byte '"' :: body) []
  | openCharacter {body u : Text} : byte '\'' ∉ body → lineFeed ∉ body → EndsLine u →
      Offends .unterminatedCharacter (byte '\'' :: body) u
  | closedCharacter {body u : Text} : byte '\'' ∉ body → lineFeed ∉ body → single? body = none →
      Offends .invalidCharacter (byte '\'' :: (body ++ [byte '\''])) u
  | openEscape {body u : Text} : byte ']' ∉ body → lineFeed ∉ body → EndsLine u →
      Offends .unterminatedEscape (byte '[' :: body) u
  | closedEscape {body u : Text} : byte ']' ∉ body → lineFeed ∉ body → 1 < body.length →
      Offends .invalidEscape (byte '[' :: (body ++ [byte ']'])) u
  | exponent {m sign u : Text} {e : UInt8} : IsMantissa m → e = byte 'e' ∨ e = byte 'E' →
      sign ∈ [[], [byte '+'], [byte '-']] → (∀ c ∈ u.head?, isDigit c = false) →
      Offends .invalidExponent (m ++ e :: sign) u
  | numeral {t u : Text} : IsNumeral t → Offends .invalidNumber t u

section Offends

variable {fault : ScanFault} {t : Text} {n : Nat}

theorem offends_stringPiece (h : stringPiece t = (.fault fault, n)) :
    Offends fault (byte '"' :: t.take n) (t.drop n) := by
  obtain ⟨body, hquote, ⟨u, -, hfound⟩ | ⟨rfl, hfound⟩⟩ := stringPiece_cases t
  · cases h.symm.trans hfound
  · obtain ⟨hpiece, rfl⟩ := Prod.mk.inj (h.symm.trans hfound)
    obtain rfl := Piece.fault.inj hpiece
    rw [List.take_length, List.drop_length]
    exact .openString hquote

theorem offends_charPiece (h : charPiece t = (.fault fault, n)) :
    Offends fault (byte '\'' :: t.take n) (t.drop n) := by
  obtain ⟨body, u, rfl, hquote, hline, ⟨hend, hfound⟩ | ⟨v, rfl, ⟨c, -, -, hfound⟩ | ⟨hsingle, hfound⟩⟩⟩ :=
    charPiece_cases t
  · obtain ⟨hpiece, rfl⟩ := Prod.mk.inj (h.symm.trans hfound)
    obtain rfl := Piece.fault.inj hpiece
    rw [List.take_left, List.drop_left]
    exact .openCharacter hquote hline hend
  · cases h.symm.trans hfound
  · obtain ⟨hpiece, rfl⟩ := Prod.mk.inj (h.symm.trans hfound)
    obtain rfl := Piece.fault.inj hpiece
    rw [take_succ_append]
    exact .closedCharacter hquote hline hsingle

theorem offends_escapePiece (h : escapePiece t = (.fault fault, n)) :
    Offends fault (byte '[' :: t.take n) (t.drop n) := by
  obtain ⟨body, u, htake, rfl, hbracket, hline, hu⟩ := exists_closing (byte ']') t
  unfold escapePiece at h
  simp only [htake, List.drop_left] at h
  split at h
  · split at h
    · split at h <;> cases h
    · cases h
    · next hempty hsingle =>
      obtain ⟨hpiece, rfl⟩ := Prod.mk.inj h
      obtain rfl := Piece.fault.inj hpiece
      have hlong : 1 < body.length := by
        rcases body with _ | ⟨b, _ | ⟨b', body⟩⟩
        · exact absurd rfl hempty
        · exact absurd rfl (hsingle b)
        · simp
      rw [take_succ_append]
      exact .closedEscape hbracket hline hlong
  · next hopen =>
    obtain ⟨hpiece, rfl⟩ := Prod.mk.inj h
    obtain rfl := Piece.fault.inj hpiece
    rw [List.take_left, List.drop_left]
    rcases hu with ⟨hend, -⟩ | ⟨v, rfl⟩
    · exact .openEscape hbracket hline hend
    · exact absurd rfl (hopen v)

theorem offends_numberPiece {b : UInt8} (hb : (isDigit b || (b == byte '.' && t.head?.any isDigit)) = true)
    (h : numberPiece (b :: t) = (.fault fault, n + 1)) : Offends fault (b :: t.take n) (t.drop n) := by
  rcases numberPiece_cases (mantissa_pos hb).1 with ⟨isReal, hpiece, hnumeral⟩ | ⟨m, sign, u, e, htext, hsize, hparts⟩
  · rw [h] at hpiece hnumeral
    obtain rfl : fault = .invalidNumber := by
      unfold numeralPiece at hpiece
      dsimp only at hpiece
      split at hpiece
      · cases hpiece
      · exact Piece.fault.inj hpiece
    exact .numeral hnumeral
  · obtain ⟨hpiece, hn⟩ := Prod.mk.inj (h.symm.trans hsize)
    obtain rfl := Piece.fault.inj hpiece
    obtain ⟨hm, he, hsign, hu⟩ := hparts
    have hlength : (m ++ e :: sign).length = n + 1 := by
      simp only [List.length_append, List.length_cons]
      omega
    have hsplit : b :: t = (m ++ e :: sign) ++ u := by simp [htext]
    have htake : b :: t.take n = m ++ e :: sign := by rw [← List.take_succ_cons, hsplit, List.take_left' hlength]
    have hdrop : t.drop n = u := by rw [← List.drop_succ_cons (a := b), hsplit, List.drop_left' hlength]
    rw [htake, hdrop]
    exact .exponent hm he hsign hu

/-- A character that starts nothing, or a byte that belongs to none. -/
theorem offends_character {b : UInt8} (h : sign? (b :: t) = none)
    (hn : n = (front? (b :: t)).elim 1 Char.utf8Size - 1) :
    Offends .unexpectedCharacter (b :: t.take n) (t.drop n) := by
  cases hfront : front? (b :: t) with
  | none =>
    rw [hfront] at hn
    obtain rfl : n = 0 := hn
    exact .stray hfront
  | some c =>
    obtain ⟨u, htext⟩ := eq_append_of_front? hfront
    rw [hfront] at hn
    have hlength : (ofChar c).length = n + 1 := by
      have hpos := c.utf8Size_pos
      rw [ofChar, String.length_utf8EncodeChar, hn, Option.elim_some]
      omega
    have htake : b :: t.take n = ofChar c := by rw [← List.take_succ_cons, htext, List.take_left' hlength]
    rw [htake]
    refine .character ?_
    rintro rfl
    -- a line feed is a sign of its own
    obtain ⟨rfl, -⟩ := List.cons.inj htext
    cases h

theorem offends_pieceAt {before : Before} {b : UInt8} (h : pieceAt before b t = (.fault fault, n)) :
    Offends fault (b :: t.take n) (t.drop n) := by
  unfold pieceAt at h
  split at h
  · split at h <;> cases h
  · split at h
    · cases h
    · split at h
      · next hb => exact beq_iff_eq.1 hb ▸ offends_stringPiece h
      · split at h
        · next hb => exact beq_iff_eq.1 hb ▸ offends_charPiece h
        · split at h
          · next hb => exact beq_iff_eq.1 hb ▸ offends_escapePiece h
          · split at h
            · next hb =>
              obtain ⟨hpos, -⟩ := numberPiece_pos hb
              generalize hnumber : numberPiece (b :: t) = found at h hpos
              obtain ⟨piece, size⟩ := found
              obtain ⟨size, rfl⟩ := Nat.exists_eq_add_one.2 hpos
              obtain ⟨rfl, rfl⟩ := Prod.mk.inj h
              exact offends_numberPiece hb hnumber
            · split at h
              · unfold wordPiece at h
                dsimp only at h
                split at h <;> cases h
              · split at h
                · cases h
                · next hsign =>
                  obtain ⟨hpiece, hn⟩ := Prod.mk.inj h
                  obtain rfl := Piece.fault.inj hpiece
                  exact offends_character hsign hn.symm

end Offends

/-! ## Where line feeds are -/

section LineFeeds

variable {before : Before} {b : UInt8} {t u : Text} {kind : Kind} {piece : Piece} {n : Nat}

theorem lineFeed_not_mem_of_all {p : UInt8 → Bool} (hp : p lineFeed = false) (h : ∀ c ∈ t, p c = true) :
    lineFeed ∉ t := fun hmem => by cases hp.symm.trans (h _ hmem)

theorem lineFeed_not_mem_ofChar {c : Char} (h : c ≠ '\n') : lineFeed ∉ ofChar c := fun hmem =>
  h (Char.toNat_inj.1 (toNat_of_mem_ofChar (by decide) hmem))

theorem IsDigits.lineFeed_not_mem (h : IsDigits t) : lineFeed ∉ t := lineFeed_not_mem_of_all (by decide) h.digits

theorem IsMantissa.lineFeed_not_mem (h : IsMantissa t) : lineFeed ∉ t := by
  cases h with
  | whole h => exact h.lineFeed_not_mem
  | fraction hwhole h =>
    simp only [List.mem_append, List.mem_cons, not_or]
    exact ⟨lineFeed_not_mem_of_all (by decide) hwhole, by decide, h.lineFeed_not_mem⟩

theorem lineFeed_not_mem_exponent {m sign digits : Text} {e : UInt8} (hm : IsMantissa m)
    (he : e = byte 'e' ∨ e = byte 'E') (hsign : sign ∈ [[], [byte '+'], [byte '-']]) (hdigits : lineFeed ∉ digits) :
    lineFeed ∉ m ++ e :: (sign ++ digits) := by
  have hletter : lineFeed ≠ e := by rcases he with rfl | rfl <;> decide
  have htable : ∀ sign ∈ [[], [byte '+'], [byte '-']], lineFeed ∉ sign := by decide
  simp only [List.mem_append, List.mem_cons, not_or]
  exact ⟨hm.lineFeed_not_mem, hletter, htable sign hsign, hdigits⟩

theorem IsNumeral.lineFeed_not_mem (h : IsNumeral t) : lineFeed ∉ t := by
  cases h with
  | plain hm => exact hm.lineFeed_not_mem
  | exponent hm he hsign hdigits => exact lineFeed_not_mem_exponent hm he hsign hdigits.lineFeed_not_mem

theorem IsWord.lineFeed_not_mem (h : IsWord t) : lineFeed ∉ t := by
  obtain ⟨b, t, rfl, hb, ht⟩ := h
  refine List.not_mem_cons_of_ne_of_not_mem ?_ (lineFeed_not_mem_of_all (by decide) ht)
  rintro rfl
  exact absurd hb (by decide)

/-- The newline is the only lexeme of the grammar with a line feed in it. -/
theorem Spells.lineFeed_not_mem (h : Spells kind t u) (hkind : kind ≠ .newline) : lineFeed ∉ t := by
  cases h with
  | operator h =>
    cases h with
    | sign hmem =>
      have htable : ∀ entry ∈ signs, entry.2 ≠ .newline → lineFeed ∉ ofString entry.1 := by decide
      rcases signs_of_mem_spellings hmem with hmem | ⟨rfl, -⟩
      · exact htable (_, _) hmem hkind
      · decide
    | escape _ hline =>
      have hopening : lineFeed ≠ byte '[' := by decide
      have hclosing : lineFeed ≠ byte ']' := by decide
      simp [hopening, hclosing, hline]
  | number h => exact h.lineFeed_not_mem
  | phrase hmem =>
    have htable : ∀ entry ∈ phrases, lineFeed ∉ ofString entry.1 := by decide
    obtain ⟨spelling, hphrase, hspelling⟩ := phrases_iff.2 ⟨_, _, hmem, rfl⟩
    exact hspelling ▸ htable _ hphrase
  | keyword hmem => exact (isWord_keyword hmem).lineFeed_not_mem
  | name h _ => exact h.lineFeed_not_mem

/-- Of the tokens, only newlines and texts have line feeds in their lexemes. -/
theorem Denotes.lineFeed_not_mem {literal : Option Value} (h : Denotes kind t literal)
    (hkind : kind ∉ [Kind.newline, .string]) : lineFeed ∉ t := by
  simp only [List.mem_cons, List.not_mem_nil, or_false, not_or] at hkind
  cases h with
  | string => exact absurd rfl hkind.2
  | @char c hc =>
    have hquote : lineFeed ≠ byte '\'' := by decide
    have hbody : lineFeed ∉ ofChar c := lineFeed_not_mem_ofChar fun h => hc (by simp [h])
    simp [hquote, hbody]
  | escape hshort hline => exact (Spells.operator (u := []) (.escape hshort hline)).lineFeed_not_mem hkind.1
  | numero h | tipik h => exact h.lineFeed_not_mem
  | bare h _ => exact h.lineFeed_not_mem hkind.1

/-- Of the texts at fault, only one that is not closed before the end of the
source goes over the end of its line. -/
theorem Offends.lineFeed_not_mem {fault : ScanFault} (h : Offends fault t u) (hfault : fault ≠ .unterminatedString) :
    lineFeed ∉ t := by
  have hquote : lineFeed ≠ byte '\'' := by decide
  have hopening : lineFeed ≠ byte '[' := by decide
  have hclosing : lineFeed ≠ byte ']' := by decide
  cases h with
  | character hc => exact lineFeed_not_mem_ofChar hc
  | stray hfront =>
    intro hmem
    obtain rfl := List.mem_singleton.1 hmem
    have hfeed : front? (lineFeed :: u) = some '\n' := front?_ofChar '\n' u
    cases hfront.symm.trans hfeed
  | openString => exact absurd rfl hfault
  | openCharacter _ hline | closedCharacter _ hline => simp [hquote, hline]
  | openEscape _ hline | closedEscape _ hline => simp [hopening, hclosing, hline]
  | exponent hm he hsign => simpa using lineFeed_not_mem_exponent hm he hsign List.not_mem_nil
  | numeral h => exact h.lineFeed_not_mem

/-- What is cut from a source with a line feed in it is a newline, or a text in
double quotes, closed or not. -/
theorem lineFeed_mem_pieceAt (h : pieceAt before b t = (piece, n)) (hmem : lineFeed ∈ b :: t.take n) :
    (piece = .token .newline none ∧ b :: t.take n = [lineFeed]) ∨
      (b = byte '"' ∧ ((∃ literal, piece = .token .string literal) ∨ piece = .fault .unterminatedString)) := by
  have hfits := fits_pieceAt before b t
  rw [h] at hfits
  cases piece with
  | blank =>
    obtain hblank | hblank | hblank : IsBlank (b :: t.take n) := by cases hfits; assumption
    all_goals
      rw [hblank] at hmem
      exact absurd hmem (by decide)
  | comment =>
    obtain ⟨-, hline⟩ : IsComment (b :: t.take n) := by cases hfits; assumption
    exact absurd hmem hline
  | fault fault =>
    have hoffends := offends_pieceAt h
    by_cases hfault : fault = .unterminatedString
    · subst hfault
      generalize htext : b :: t.take n = text, t.drop n = rest at hoffends
      cases hoffends with
      | openString => exact .inr ⟨(List.cons.inj htext).1, .inr rfl⟩
    · exact absurd hmem (hoffends.lineFeed_not_mem hfault)
  | token kind literal =>
    have hdenotes := denotes_pieceAt h
    by_cases hnewline : kind = .newline
    · subst hnewline
      obtain rfl := lineFeed_of_newline h
      obtain ⟨hpiece, rfl⟩ := Prod.mk.inj ((pieceAt_lineFeed before t).symm.trans h)
      exact .inl ⟨hpiece.symm, rfl⟩
    · by_cases hstring : kind = .string
      · subst hstring
        generalize htext : b :: t.take n = text at hdenotes
        cases hdenotes with
        | string => exact .inr ⟨(List.cons.inj htext).1, .inl ⟨_, rfl⟩⟩
        | bare _ hkind => exact absurd List.mem_cons_self hkind
      · exact absurd hmem (hdenotes.lineFeed_not_mem (by simp [hnewline, hstring]))

end LineFeeds

/-! ## The line counter -/

section Counter

variable {before : Before} {pos line : Nat} {b : UInt8} {t r : Text} {piece : Piece} {n : Nat} {s : Segment}

theorem Segment.endLine_of_lineFeeds (h : lineFeeds s.bytes = 0) : s.endLine = s.line := by
  unfold endLine
  split
  · rw [h, Nat.add_zero]
  · rw [h, Nat.add_zero]
  · rfl

theorem Segment.nextLine_of_ne (h : ∀ literal, s.piece ≠ .token .newline literal) : s.nextLine = s.endLine := by
  unfold nextLine
  split
  · next literal hpiece => exact absurd hpiece (h literal)
  · rfl

/-- Where a line feed was cut the counter counted it, and it counted nothing
else. -/
theorem nextLine_pieceAt (pos line : Nat) (h : pieceAt before b t = (piece, n)) :
    Segment.nextLine ⟨piece, b :: t.take n, pos, line⟩ = line + lineFeeds (b :: t.take n) := by
  by_cases hmem : lineFeed ∈ b :: t.take n
  · rcases lineFeed_mem_pieceAt h hmem with ⟨rfl, hbytes⟩ | ⟨-, ⟨literal, rfl⟩ | rfl⟩
    · rw [hbytes]
      rfl
    · rfl
    · rfl
  · have hzero : lineFeeds (b :: t.take n) = 0 := lineFeeds_eq_zero hmem
    have hnewline : ∀ literal, piece ≠ .token .newline literal := by
      rintro literal rfl
      obtain rfl := lineFeed_of_newline h
      exact hmem List.mem_cons_self
    rw [Segment.nextLine_of_ne hnewline, Segment.endLine_of_lineFeeds hzero, hzero, Nat.add_zero]

/-- All but newlines have the line on which they end. -/
theorem endLine_pieceAt (h : pieceAt before b t = (piece, n)) (hpiece : ∀ literal, piece ≠ .token .newline literal) :
    Segment.endLine ⟨piece, b :: t.take n, pos, line⟩ = line + lineFeeds (b :: t.take n) := by
  rw [← nextLine_pieceAt pos line h, Segment.nextLine_of_ne hpiece]

theorem segmentsFrom_cons (h : pieceAt before b t = (piece, n)) :
    segmentsFrom before pos line (b :: t) = ⟨piece, b :: t.take n, pos, line⟩ ::
      segmentsFrom (before.after piece) (pos + (b :: t.take n).length) (line + lineFeeds (b :: t.take n))
        (t.drop n) := by
  rw [← nextLine_pieceAt pos line h, segmentsFrom, h]

/-- A segment that ends before the last part of the text. -/
theorem segmentsFrom_cons_append (h : pieceAt before b (t ++ r) = (piece, n)) (hn : n ≤ t.length) :
    segmentsFrom before pos line (b :: t ++ r) = ⟨piece, b :: t.take n, pos, line⟩ ::
      segmentsFrom (before.after piece) (pos + (n + 1)) (line + lineFeeds (b :: t.take n)) (t.drop n ++ r) := by
  have hlength : (b :: t.take n).length = n + 1 := by simp [hn]
  rw [List.cons_append, segmentsFrom_cons h, List.take_append_of_le_length hn, List.drop_append_of_le_length hn,
    hlength]

theorem lineAfter_cons (line : Nat) (s : Segment) (parts : List Segment) :
    lineAfter line (s :: parts) = lineAfter s.nextLine parts := by
  unfold lineAfter
  rw [List.getLast?_cons]
  cases parts.getLast? <;> rfl

theorem lineAfter_segmentsFrom (before : Before) (pos line : Nat) (t : Text) :
    lineAfter line (segmentsFrom before pos line t) = line + lineFeeds t := by
  fun_induction segmentsFrom before pos line t with
  | case1 before pos line => rfl
  | case2 before pos line b t found segment ih =>
    have hfound : pieceAt before b t = (found.1, found.2) := rfl
    have hsplit := lineFeeds_take_add_drop (found.2 + 1) (b :: t)
    rw [List.take_succ_cons, List.drop_succ_cons] at hsplit
    rw [lineAfter_cons, ih, ← hsplit, ← Nat.add_assoc]
    exact congrArg (· + _) (nextLine_pieceAt pos line hfound)

/-- The counter ends with the number of the last line. -/
theorem lastLine_scan (source : Text) : (scan source).lastLine = 1 + lineFeeds source :=
  lineAfter_segmentsFrom {} 0 1 source

/-- The end token has the last line too. -/
theorem tokens_eq_concat (source : Text) : (scan source).tokens = (segments source).filterMap Segment.token? ++
    [{ kind := .eof, lexeme := [], line := (scan source).lastLine, pos := some source.length }] := rfl

end Counter

end Scan

end BisayaPlus
