import BisayaPlus.Proofs.Lexemes
/-!
# Tokens are as long as can be

What may be an operator, a word, a phrase or a number is said here without the
scanner, with a table of its own that gives the spellings of each kind of token.
At each place the scanner takes the longest such lexeme: it looks ahead for the
second word of a phrase and for the digits of a fraction or an exponent, and
takes them where they are and leaves all of the rest.
-/

set_option autoImplicit false

namespace BisayaPlus.Scan

open Text

/-! ## Spellings -/

/-- What a token is always written with: a sign, a word, or two words with one
space between them. -/
inductive Spelling where
  | sign (s : String)
  | word (s : String)
  | phrase (first second : String)
  deriving DecidableEq

def Spelling.text : Spelling → Text
  | sign s => s
  | word s => s
  | phrase first second => ofString first ++ 32 :: ofString second

/-- The spellings of a kind of token. Names and literals have none. -/
def spellings : Kind → List Spelling
  | .newline => [.sign "\n"]
  | .leftParen => [.sign "("]
  | .rightParen => [.sign ")"]
  | .leftBrace => [.sign "\x7b"]
  | .rightBrace => [.sign "\x7d"]
  | .comma => [.sign ","]
  | .colon => [.sign ":"]
  | .ampersand => [.sign "&"]
  | .dollar => [.sign "$"]
  | .plus => [.sign "+"]
  | .minus => [.sign "-"]
  | .star => [.sign "*"]
  | .slash => [.sign "/"]
  | .percent => [.sign "%"]
  | .plusEqual => [.sign "+="]
  | .minusEqual => [.sign "-="]
  | .starEqual => [.sign "*="]
  | .slashEqual => [.sign "/="]
  | .percentEqual => [.sign "%="]
  | .plusPlus => [.sign "++"]
  | .minusMinus => [.sign "--"]
  | .equal => [.sign "="]
  | .equalEqual => [.sign "=="]
  | .notEqual => [.sign "<>"]
  | .greater => [.sign ">"]
  | .greaterEqual => [.sign ">="]
  | .less => [.sign "<"]
  | .lessEqual => [.sign "<="]
  | .sugod => [.word "SUGOD"]
  | .katapusan => [.word "KATAPUSAN"]
  | .mugna => [.word "MUGNA"]
  | .ipakita => [.word "IPAKITA"]
  | .dawat => [.word "DAWAT"]
  | .numero => [.word "NUMERO"]
  | .tipik => [.word "TIPIK"]
  | .letra => [.word "LETRA"]
  | .tinuod => [.word "TINUOD"]
  | .ug => [.word "UG"]
  | .o => [.word "O"]
  | .dili => [.word "DILI"]
  | .oo => [.word "OO"]
  | .null => [.word "NULL"]
  | .kung => [.word "KUNG"]
  | .kungPa => [.phrase "KUNG" "PA"]
  | .kungWala => [.phrase "KUNG" "WALA", .phrase "KUNG" "DILI"]
  | .alangSa => [.phrase "ALANG" "SA"]
  | .mintras => [.word "MINTRAS"]
  | .buhata => [.word "BUHATA"]
  | .hunong => [.word "HUNONG"]
  | .padayon => [.word "PADAYON"]
  | .pundok => [.word "PUNDOK"]
  | .eof | .identifier | .string | .char | .number | .escape | .unnamed _ => []

section Tables

variable {kind : Kind} {spelling : String}

theorem sign_mem_spellings (h : (spelling, kind) ∈ signs) : .sign spelling ∈ spellings kind :=
  (by decide : ∀ entry ∈ signs, Spelling.sign entry.1 ∈ spellings entry.2) _ h

/-- The scanner tells a decrement from a comment before it looks at its signs. -/
theorem signs_of_mem_spellings (h : .sign spelling ∈ spellings kind) :
    (spelling, kind) ∈ signs ∨ spelling = "--" ∧ kind = .minusMinus := by
  cases kind <;> simp [spellings] at h <;> subst h <;> decide

theorem keywords_iff : (spelling, kind) ∈ keywords ↔ .word spelling ∈ spellings kind := by
  constructor
  · exact (by decide : ∀ entry ∈ keywords, Spelling.word entry.1 ∈ spellings entry.2) _
  · intro h
    cases kind <;> simp [spellings] at h <;> subst h <;> decide

theorem phrases_iff {t : Text} : (∃ spelling, (spelling, kind) ∈ phrases ∧ ofString spelling = t) ↔
    ∃ first second, .phrase first second ∈ spellings kind ∧ (Spelling.phrase first second).text = t := by
  constructor
  · rintro ⟨spelling, hmem, rfl⟩
    simp only [phrases, List.mem_cons, Prod.mk.injEq, List.not_mem_nil, or_false] at hmem
    rcases hmem with ⟨rfl, rfl⟩ | ⟨rfl, rfl⟩ | ⟨rfl, rfl⟩ | ⟨rfl, rfl⟩
    · exact ⟨"KUNG", "PA", by decide, by decide⟩
    · exact ⟨"KUNG", "WALA", by decide, by decide⟩
    · exact ⟨"KUNG", "DILI", by decide, by decide⟩
    · exact ⟨"ALANG", "SA", by decide, by decide⟩
  · rintro ⟨first, second, hmem, rfl⟩
    cases kind <;> simp [spellings] at hmem
    case kungPa =>
      obtain ⟨rfl, rfl⟩ := hmem
      exact ⟨"KUNG PA", by decide, by decide⟩
    case kungWala =>
      rcases hmem with ⟨rfl, rfl⟩ | ⟨rfl, rfl⟩
      · exact ⟨"KUNG WALA", by decide, by decide⟩
      · exact ⟨"KUNG DILI", by decide, by decide⟩
    case alangSa =>
      obtain ⟨rfl, rfl⟩ := hmem
      exact ⟨"ALANG SA", by decide, by decide⟩

end Tables

/-! ## Lexemes -/

/-- One or more digits. -/
structure IsDigits (t : Text) : Prop where
  ne_nil : t ≠ []
  digits : ∀ c ∈ t, isDigit c = true

/-- Digits with an optional fraction, or a fraction alone. -/
inductive IsMantissa : Text → Prop where
  | whole {digits : Text} : IsDigits digits → IsMantissa digits
  | fraction {whole digits : Text} : (∀ c ∈ whole, isDigit c = true) → IsDigits digits →
      IsMantissa (whole ++ byte '.' :: digits)

/-- A mantissa with an optional exponent. -/
inductive IsNumeral : Text → Prop where
  | plain {m : Text} : IsMantissa m → IsNumeral m
  | exponent {m sign digits : Text} {e : UInt8} : IsMantissa m → e = byte 'e' ∨ e = byte 'E' →
      sign ∈ [[], [byte '+'], [byte '-']] → IsDigits digits → IsNumeral (m ++ e :: (sign ++ digits))

/-- A letter, and letters and digits behind it. -/
def IsWord (t : Text) : Prop := ∃ b u, t = b :: u ∧ isLetter b = true ∧ ∀ c ∈ u, isWordByte c = true

/-- The operators: signs, and an escape of at most one byte. -/
inductive IsOperator : Kind → Text → Prop where
  | sign {spelling : String} {kind : Kind} : .sign spelling ∈ spellings kind → IsOperator kind spelling
  | escape {body : Text} : body.length ≤ 1 → lineFeed ∉ body → IsOperator .escape (byte '[' :: (body ++ [byte ']']))

theorem IsOperator.decrement : IsOperator .minusMinus "--" := .sign (List.mem_singleton_self _)

/-- `Spells kind t u`: the text `t` is a lexeme of this kind where `u` follows. Only a
phrase cares about what follows. -/
inductive Spells : Kind → Text → Text → Prop where
  | operator {kind : Kind} {t u : Text} : IsOperator kind t → Spells kind t u
  | number {t u : Text} : IsNumeral t → Spells .number t u
  | phrase {first second : String} {kind : Kind} {u : Text} : .phrase first second ∈ spellings kind →
      (∀ c ∈ u.head?, isWordByte c = false) → Spells kind (Spelling.phrase first second).text u
  | keyword {spelling : String} {kind : Kind} {u : Text} : .word spelling ∈ spellings kind → Spells kind spelling u
  | name {t u : Text} : IsWord t → (∀ kind spelling, .word spelling ∈ spellings kind → ofString spelling ≠ t) →
      Spells .identifier t u

/-- The text is a lexeme of this kind, and no longer text at its place is a lexeme. -/
structure Longest (kind : Kind) (t u : Text) : Prop where
  spells : Spells kind t u
  longest : ∀ kind' t' u', t' ++ u' = t ++ u → Spells kind' t' u' → t'.length ≤ t.length

/-! ## What a first byte can start -/

section FirstByte

variable {kind : Kind} {b : UInt8} {t u : Text}

theorem isWord_of_all (hfirst : t.head?.any isLetter = true) (hall : t.all isWordByte = true) : IsWord t := by
  cases t with
  | nil => cases hfirst
  | cons b t =>
    rw [List.all_cons, Bool.and_eq_true] at hall
    exact ⟨b, t, rfl, hfirst, List.all_eq_true.1 hall.2⟩

theorem isWord_keyword {spelling : String} (h : .word spelling ∈ spellings kind) : IsWord spelling := by
  have htable : ∀ entry ∈ keywords, (ofString entry.1).head?.any isLetter = true ∧
      (ofString entry.1).all isWordByte = true := by decide
  obtain ⟨hfirst, hall⟩ := htable _ (keywords_iff.2 h)
  exact isWord_of_all hfirst hall

/-- A phrase starts with a word, and goes on like one behind the space. -/
theorem phrase_parts {first second : String} (h : .phrase first second ∈ spellings kind) :
    ∃ b tail, (Spelling.phrase first second).text = b :: (tail ++ 32 :: ofString second) ∧ isLetter b = true ∧
      (∀ c ∈ tail, isWordByte c = true) ∧ ∀ c ∈ ofString second, isWordByte c = true := by
  have hwords : IsWord first ∧ ∀ c ∈ ofString second, isWordByte c = true := by
    cases kind <;> simp [spellings] at h
    case kungPa | alangSa =>
      obtain ⟨rfl, rfl⟩ := h
      exact ⟨isWord_of_all (by decide) (by decide), List.all_eq_true.1 (by decide)⟩
    case kungWala =>
      rcases h with ⟨rfl, rfl⟩ | ⟨rfl, rfl⟩ <;>
        exact ⟨isWord_of_all (by decide) (by decide), List.all_eq_true.1 (by decide)⟩
  obtain ⟨⟨b, tail, hfirst, hb, htail⟩, hsecond⟩ := hwords
  exact ⟨b, tail, by rw [Spelling.text, hfirst, List.cons_append], hb, htail, hsecond⟩

/-- A byte that starts a number. -/
def startsNumber (b : UInt8) : Bool := isDigit b || b == byte '.'

theorem IsMantissa.first (h : IsMantissa t) : t.head?.any startsNumber = true := by
  cases h with
  | whole h =>
    obtain ⟨c, t, rfl⟩ := List.exists_cons_of_ne_nil h.ne_nil
    simp [startsNumber, h.digits c]
  | @fraction whole digits hwhole _ =>
    cases whole with
    | nil => rfl
    | cons c whole => simp [startsNumber, hwhole c]

theorem IsNumeral.first (h : IsNumeral t) : t.head?.any startsNumber = true := by
  cases h with
  | plain hm => exact hm.first
  | @exponent m sign digits e hm _ _ _ =>
    have hfirst := hm.first
    cases m with
    | nil => cases hfirst
    | cons c m => exact hfirst

theorem IsOperator.first (h : IsOperator kind t) :
    t.head?.any (fun b => !startsNumber b && !isLetter b) = true := by
  cases h with
  | sign h =>
    have htable : ∀ entry ∈ signs, (ofString entry.1).head?.any (fun b => !startsNumber b && !isLetter b) = true := by
      decide
    rcases signs_of_mem_spellings h with h | ⟨rfl, -⟩
    · exact htable (_, _) h
    · rfl
  | escape => rfl

theorem startsNumber_of_isLetter (hb : isLetter b = true) : startsNumber b = false := by
  have hpoint : b ≠ byte '.' := by
    rintro rfl
    exact absurd hb (by decide)
  simp [startsNumber, isDigit_eq_false_of_isLetter hb, hpoint]

/-- The spelling of a phrase that nothing goes on with. -/
def IsPhrase (kind : Kind) (t u : Text) : Prop :=
  (∃ first second, .phrase first second ∈ spellings kind ∧ (Spelling.phrase first second).text = t) ∧
    ∀ c ∈ u.head?, isWordByte c = false

/-- The first byte of a lexeme tells whether it is a word, a number or an operator. -/
theorem Spells.cases_first (h : Spells kind (b :: t) u) :
    isLetter b = true ∧ ((∀ c ∈ t, isWordByte c = true) ∨ IsPhrase kind (b :: t) u) ∨
      startsNumber b = true ∧ IsNumeral (b :: t) ∨
      (isLetter b = false ∧ startsNumber b = false) ∧ IsOperator kind (b :: t) := by
  have hword (h : IsWord (b :: t)) : isLetter b = true ∧ ∀ c ∈ t, isWordByte c = true := by
    obtain ⟨b', t', heq, hb, ht⟩ := h
    obtain ⟨rfl, rfl⟩ := List.cons.inj heq
    exact ⟨hb, ht⟩
  generalize htext : b :: t = text at h
  cases h with
  | operator h =>
    have hfirst := h.first
    rw [← htext] at hfirst
    exact .inr (.inr ⟨by simpa [and_comm] using hfirst, h⟩)
  | number h =>
    have hfirst := h.first
    rw [← htext] at hfirst
    exact .inr (.inl ⟨hfirst, h⟩)
  | phrase h hu =>
    obtain ⟨b', tail, hparts, hb, -, -⟩ := phrase_parts h
    obtain ⟨rfl, -⟩ := List.cons.inj (htext.trans hparts)
    exact .inl ⟨hb, .inr ⟨⟨_, _, h, rfl⟩, hu⟩⟩
  | keyword h => exact .inl ((hword (htext ▸ isWord_keyword h)).imp_right .inl)
  | name h _ => exact .inl ((hword (htext ▸ h)).imp_right .inl)

theorem Spells.of_letter (h : Spells kind (b :: t) u) (hb : isLetter b = true) :
    (∀ c ∈ t, isWordByte c = true) ∨ IsPhrase kind (b :: t) u := by
  rcases h.cases_first with ⟨-, h⟩ | ⟨hnumber, -⟩ | ⟨⟨hletter, -⟩, -⟩
  · exact h
  · cases (startsNumber_of_isLetter hb).symm.trans hnumber
  · cases hb.symm.trans hletter

theorem Spells.of_number (h : Spells kind (b :: t) u) (hb : startsNumber b = true) : IsNumeral (b :: t) := by
  rcases h.cases_first with ⟨hletter, -⟩ | ⟨-, h⟩ | ⟨⟨-, hnumber⟩, -⟩
  · cases (startsNumber_of_isLetter hletter).symm.trans hb
  · exact h
  · cases hb.symm.trans hnumber

theorem Spells.of_operator (h : Spells kind (b :: t) u) (hletter : isLetter b = false)
    (hnumber : startsNumber b = false) : IsOperator kind (b :: t) := by
  rcases h.cases_first with ⟨hb, -⟩ | ⟨hb, -⟩ | ⟨-, h⟩
  · cases hb.symm.trans hletter
  · cases hb.symm.trans hnumber
  · exact h

end FirstByte

/-- To be the longest, a lexeme need only be compared with those that start alike. -/
theorem longest_of_cons {kind : Kind} {b : UInt8} {t u : Text} (hspells : Spells kind (b :: t) u)
    (h : ∀ kind' t' u', t' ++ u' = t ++ u → Spells kind' (b :: t') u' → t'.length ≤ t.length) :
    Longest kind (b :: t) u := by
  refine ⟨hspells, fun kind' t' u' heq hspells' => ?_⟩
  cases t' with
  | nil => exact Nat.zero_le _
  | cons b' t' =>
    obtain ⟨rfl, htail⟩ := List.cons.inj heq
    exact Nat.succ_le_succ (h kind' t' u' htail hspells')

theorem length_le_takeWhile {p : UInt8 → Bool} {t : Text} (ht : ∀ c ∈ t, p c = true) (u : Text) :
    t.length ≤ ((t ++ u).takeWhile p).length := by
  rw [List.takeWhile_append_of_pos ht, List.length_append]
  exact Nat.le_add_right _ _

/-! ## Words -/

section Words

variable {kind : Kind} {literal : Option Value} {b : UInt8} {t : Text} {n : Nat}

/-- A phrase at the start of the text is found, with its size. -/
theorem phrase?_of_isPhrase {t' u' : Text} (h : IsPhrase kind (b :: t') u') (heq : t' ++ u' = t) :
    ∃ size, phrase? (b :: t.takeWhile isWordByte) (t.drop (t.takeWhile isWordByte).length) = some (kind, size) ∧
      (t.takeWhile isWordByte).length + size = t'.length := by
  have htable : ∀ entry ∈ phrases, spelled? phrases (ofString entry.1) = some entry.2 := by decide
  obtain ⟨⟨first, second, hmem, htext⟩, hu⟩ := h
  obtain ⟨spelling, hphrase, hspelling⟩ := phrases_iff.2 ⟨first, second, hmem, htext⟩
  have hspelled := htable _ hphrase
  rw [hspelling] at hspelled
  obtain ⟨b', tail, hparts, -, htail, hsecond⟩ := phrase_parts hmem
  obtain ⟨rfl, rfl⟩ := List.cons.inj (htext.symm.trans hparts)
  generalize ofString second = second at *
  subst heq
  have hfirst : (tail ++ 32 :: second ++ u').takeWhile isWordByte = tail := by
    rw [List.append_assoc]
    exact takeWhile_append_stop htail fun c hc => by obtain rfl := Option.some.inj hc; rfl
  rw [hfirst, List.append_assoc, List.drop_left, List.cons_append, phrase?_space,
    takeWhile_append_stop hsecond hu]
  refine ⟨second.length + 1, ?_, by simp⟩
  rw [List.cons_append, hspelled]
  rfl

theorem spelled?_eq_some {table : List (String × Kind)} (h : spelled? table t = some kind) :
    ∃ spelling, (spelling, kind) ∈ table ∧ ofString spelling = t := by
  obtain ⟨entry, hentry, rfl⟩ := Option.map_eq_some_iff.1 h
  exact ⟨entry.1, List.mem_of_find?_eq_some hentry, by simpa using List.find?_some hentry⟩

theorem spells_word (hb : isLetter b = true) (ht : ∀ c ∈ t, isWordByte c = true) (u : Text) :
    Spells ((spelled? keywords (b :: t)).getD .identifier) (b :: t) u := by
  cases hspelled : spelled? keywords (b :: t) with
  | some kind =>
    obtain ⟨spelling, hmem, hspelling⟩ := spelled?_eq_some hspelled
    exact hspelling ▸ .keyword (keywords_iff.1 hmem)
  | none =>
    refine .name ⟨b, t, rfl, hb, ht⟩ fun kind spelling hmem heq => ?_
    have hnone := List.find?_eq_none.1 (Option.map_eq_none_iff.1 hspelled) _ (keywords_iff.2 hmem)
    simp [heq] at hnone

theorem phrase?_eq_some {word following : Text} {size : Nat} (h : phrase? word following = some (kind, size)) :
    ∃ second u, following = 32 :: (second ++ u) ∧ size = second.length + 1 ∧
      IsPhrase kind (word ++ 32 :: second) u := by
  unfold phrase? at h
  split at h
  · next rest =>
    obtain ⟨u, hrest, -, hu⟩ := exists_takeWhile isWordByte rest
    obtain ⟨found, hspelled, heq⟩ := Option.map_eq_some_iff.1 h
    obtain ⟨rfl, rfl⟩ := Prod.mk.inj heq
    exact ⟨_, u, congrArg (32 :: ·) hrest, rfl, phrases_iff.1 (spelled?_eq_some hspelled), hu⟩
  · cases h

/-- A word that starts a phrase is taken with the second word, and any other ends
where it ends. -/
theorem longest_wordPiece (hb : isLetter b = true) (h : wordPiece b t = (.token kind literal, n)) :
    Longest kind (b :: t.take n) (t.drop n) := by
  have hwords (t' u' : Text) (heq : t' ++ u' = t) (h : ∀ c ∈ t', isWordByte c = true) :
      t'.length ≤ (t.takeWhile isWordByte).length := heq ▸ length_le_takeWhile h u'
  have hphrases (kind : Kind) (t' u' : Text) (heq : t' ++ u' = t) (h : IsPhrase kind (b :: t') u') :=
    phrase?_of_isPhrase h heq
  obtain ⟨u, ht, htail, -⟩ := exists_takeWhile isWordByte t
  unfold wordPiece at h
  generalize t.takeWhile isWordByte = tail at ht htail h hwords hphrases
  dsimp only at h
  subst ht
  simp only [List.drop_left] at h hphrases
  cases hphrase : phrase? (b :: tail) u with
  | some found =>
    obtain ⟨found, size⟩ := found
    rw [hphrase] at h
    obtain ⟨hpiece, rfl⟩ := Prod.mk.inj h
    obtain ⟨rfl, rfl⟩ := Piece.token.inj hpiece
    obtain ⟨second, v, rfl, rfl, ⟨_, _, hmem, hspelling⟩, hv⟩ := phrase?_eq_some hphrase
    have htake : (tail ++ 32 :: (second ++ v)).take (tail.length + (second.length + 1)) = tail ++ 32 :: second := by
      rw [List.take_length_add_append, List.take_succ_cons, List.take_left]
    have hdrop : (tail ++ 32 :: (second ++ v)).drop (tail.length + (second.length + 1)) = v := by
      rw [List.drop_length_add_append, List.drop_succ_cons, List.drop_left]
    have hspelled : Spells found (b :: (tail ++ 32 :: second)) v := by
      rw [← List.cons_append, ← hspelling]
      exact .phrase hmem hv
    rw [htake, hdrop]
    refine longest_of_cons hspelled fun kind' t' u' heq hspells => ?_
    have htext : t' ++ u' = tail ++ 32 :: (second ++ v) := by simpa using heq
    rcases hspells.of_letter hb with hword | hother
    · exact Nat.le_trans (hwords t' u' htext hword) (by simp)
    · obtain ⟨size, hfound, hsize⟩ := hphrases kind' t' u' htext hother
      obtain ⟨-, rfl⟩ := Prod.mk.inj (Option.some.inj (hphrase.symm.trans hfound))
      rw [← hsize]
      simp
  | none =>
    rw [hphrase] at h
    obtain ⟨hpiece, rfl⟩ := Prod.mk.inj h
    obtain ⟨rfl, rfl⟩ := Piece.token.inj hpiece
    rw [List.take_left, List.drop_left]
    refine longest_of_cons (spells_word hb htail u) fun kind' t' u' heq hspells => ?_
    rcases hspells.of_letter hb with hword | hother
    · exact hwords t' u' heq hword
    · obtain ⟨size, hfound, -⟩ := hphrases kind' t' u' heq hother
      cases hphrase.symm.trans hfound

end Words

/-! ## Numbers -/

section Numbers

variable {kind : Kind} {literal : Option Value} {b : UInt8} {s t u : Text} {n : Nat}

theorem fraction_append (whole digits u : Text) :
    whole ++ byte '.' :: digits ++ u = whole ++ 46 :: (digits ++ u) := by
  rw [List.append_assoc]
  rfl

/-- A mantissa at the start of a text is no longer than the one that is taken. -/
theorem IsMantissa.length_le (h : IsMantissa t) (u : Text) : t.length ≤ (mantissa (t ++ u)).1 := by
  cases h with
  | whole h => exact Nat.le_trans (length_le_takeWhile h.digits u) (takeWhile_le_mantissa _)
  | @fraction whole digits hwhole h =>
    have hmore := length_le_takeWhile h.digits u
    obtain ⟨v, hv, hall, hstop⟩ := exists_takeWhile isDigit (digits ++ u)
    have hne : (digits ++ u).takeWhile isDigit ≠ [] := by
      intro hnil
      rw [hnil, List.length_nil, Nat.le_zero, List.length_eq_zero_iff] at hmore
      exact h.ne_nil hmore
    have hfraction := mantissa_fraction hwhole hall hne hstop
    rw [fraction_append, hv, hfraction, List.length_append, List.length_cons]
    dsimp only
    omega

/-- It is the one that is taken where neither a digit nor a point follows. -/
theorem IsMantissa.mantissa_eq (h : IsMantissa t) (hu : ∀ c ∈ u.head?, isDigit c = false ∧ c ≠ 46) :
    (mantissa (t ++ u)).1 = t.length := by
  have hu' : ∀ c ∈ u.head?, isDigit c = false := fun c hc => (hu c hc).1
  cases h with
  | whole h =>
    rw [mantissa_whole h.digits hu']
    rintro r rfl
    exact absurd rfl (hu 46 rfl).2
  | @fraction whole digits hwhole h =>
    rw [fraction_append, mantissa_fraction hwhole h.digits h.ne_nil hu', List.length_append, List.length_cons]
    dsimp only
    omega

/-- The sign of an exponent is told by the first byte: it is no digit. -/
theorem signSize_eq {sign digits : Text} (hsign : sign ∈ [[], [byte '+'], [byte '-']]) (hdigits : IsDigits digits)
    (u : Text) : signSize (sign ++ (digits ++ u)) = sign.length := by
  simp only [List.mem_cons, List.not_mem_nil, or_false] at hsign
  rcases hsign with rfl | rfl | rfl
  · obtain ⟨d, digits, rfl⟩ := List.exists_cons_of_ne_nil hdigits.ne_nil
    have hd := hdigits.digits d List.mem_cons_self
    refine if_neg fun h => ?_
    rcases Bool.or_eq_true_iff.1 h with h | h
    · obtain rfl : d = byte '+' := by simpa using h
      cases hd
    · obtain rfl : d = byte '-' := by simpa using h
      cases hd
  · rfl
  · rfl

/-- No numeral at the start of a text is longer than the number that is taken. -/
theorem IsNumeral.length_le (h : IsNumeral t) (u : Text) : t.length ≤ (numberPiece (t ++ u)).2 := by
  cases h with
  | plain hm => exact Nat.le_trans (hm.length_le u) (mantissa_le_numberPiece _)
  | @exponent m sign digits e hm he hsign hdigits =>
    have hmore := length_le_takeWhile hdigits.digits u
    have hsize := signSize_eq hsign hdigits u
    obtain ⟨v, hv, hall, hstop⟩ := exists_takeWhile isDigit (digits ++ u)
    generalize (digits ++ u).takeWhile isDigit = taken at hmore hv hall
    have hexponent : (lowerByte e == byte 'e') = true := by rcases he with rfl | rfl <;> decide
    have htext : m ++ e :: (sign ++ digits) ++ u = m ++ e :: (sign ++ (taken ++ v)) := by simp [← hv]
    have hmantissa : mantissa (m ++ e :: (sign ++ (taken ++ v))) =
        (m.length, (mantissa (m ++ e :: (sign ++ (taken ++ v)))).2) := by
      refine Prod.ext (hm.mantissa_eq fun c hc => ?_) rfl
      obtain rfl := Option.some.inj hc
      exact not_mantissa_of_exponent hexponent
    rw [htext, numberPiece_exponent hmantissa hexponent (hv ▸ hsize) hall hstop]
    simp only [List.length_append, List.length_cons]
    omega

/-- A mantissa that is taken is one. -/
theorem exists_mantissa (s : Text) : ∃ m u, s = m ++ u ∧ mantissa s = (m.length, (mantissa s).2) ∧
    (m ≠ [] → IsMantissa m) := by
  obtain ⟨v, hs, hwhole, hv⟩ := exists_takeWhile isDigit s
  generalize s.takeWhile isDigit = whole at hs hwhole
  subst hs
  by_cases hfraction : ∃ r, v = 46 :: r ∧ r.takeWhile isDigit ≠ []
  · obtain ⟨r, rfl, hne⟩ := hfraction
    obtain ⟨w, hr, hdigits, hw⟩ := exists_takeWhile isDigit r
    generalize r.takeWhile isDigit = fraction at hr hdigits hne
    subst hr
    refine ⟨whole ++ byte '.' :: fraction, w, (fraction_append whole fraction w).symm, ?_,
      fun _ => .fraction hwhole ⟨hne, hdigits⟩⟩
    rw [mantissa_fraction hwhole hdigits hne hw, List.length_append, List.length_cons, Nat.add_assoc,
      Nat.add_comm 1]
  · have hpoint : ∀ r, v = 46 :: r → r.takeWhile isDigit = [] := fun r hr =>
      Classical.byContradiction fun hne => hfraction ⟨r, hr, hne⟩
    refine ⟨whole, v, rfl, ?_, fun hne => .whole ⟨hne, hwhole⟩⟩
    rw [mantissa_whole hwhole hv hpoint]

theorem exponent_letter {e : UInt8} (he : (lowerByte e == byte 'e') = true) : e = byte 'e' ∨ e = byte 'E' := by
  have hlower : lowerByte e = byte 'e' := by simpa using he
  unfold lowerByte at hlower
  split at hlower
  · exact .inr ((UInt8.add_left_inj 32).1 (hlower.trans rfl))
  · exact .inl hlower

/-- The sign of an exponent is at most one byte. -/
theorem exists_signSize (v : Text) : ∃ sign w, v = sign ++ w ∧ signSize v = sign.length ∧
    sign ∈ [[], [byte '+'], [byte '-']] := by
  by_cases hsign : ∃ c ∈ [byte '+', byte '-'], v.head? = some c
  · obtain ⟨c, hc, hhead⟩ := hsign
    obtain ⟨w, rfl⟩ := List.head?_eq_some_iff.1 hhead
    simp only [List.mem_cons, List.not_mem_nil, or_false] at hc
    rcases hc with rfl | rfl
    · exact ⟨[byte '+'], w, rfl, rfl, by simp⟩
    · exact ⟨[byte '-'], w, rfl, rfl, by simp⟩
  · refine ⟨[], v, rfl, if_neg fun h => hsign ?_, by simp⟩
    simpa using h

/-- What is taken is a numeral, or a mantissa with an exponent that has no digits. -/
theorem numberPiece_cases (hstart : 0 < (mantissa s).1) :
    (∃ isReal, (numberPiece s).1 = numeralPiece isReal (s.take (numberPiece s).2) ∧
        IsNumeral (s.take (numberPiece s).2)) ∨
      ∃ m sign u e, s = m ++ e :: (sign ++ u) ∧ numberPiece s = (.fault .invalidExponent, m.length + 1 + sign.length) ∧
        IsMantissa m ∧ (e = byte 'e' ∨ e = byte 'E') ∧ sign ∈ [[], [byte '+'], [byte '-']] ∧
        ∀ c ∈ u.head?, isDigit c = false := by
  obtain ⟨m, u, rfl, hm, hmantissa⟩ := exists_mantissa s
  rw [hm] at hstart
  have hm' := hmantissa (List.length_pos_iff.1 hstart)
  by_cases hexponent : ∃ e ∈ u.head?, (lowerByte e == byte 'e') = true
  · obtain ⟨e, heq, he⟩ := hexponent
    obtain ⟨v, rfl⟩ : ∃ v, u = e :: v := List.head?_eq_some_iff.1 heq
    obtain ⟨sign, w, rfl, hsize, hsign⟩ := exists_signSize v
    obtain ⟨x, hw, hdigits, hx⟩ := exists_takeWhile isDigit w
    generalize w.takeWhile isDigit = digits at hw hdigits
    subst hw
    rw [numberPiece_exponent hm he hsize hdigits hx]
    cases digits with
    | nil => exact .inr ⟨m, sign, x, e, rfl, rfl, hm', exponent_letter he, hsign, hx⟩
    | cons d digits =>
      refine .inl ⟨true, ?_⟩
      dsimp only
      rw [take_exponent]
      exact ⟨rfl, .exponent hm' (exponent_letter he) hsign ⟨List.cons_ne_nil _ _, hdigits⟩⟩
  · have hu : ∀ c ∈ u.head?, (lowerByte c == byte 'e') = false := by
      intro c hc
      simpa using fun he => hexponent ⟨c, hc, by simpa using he⟩
    rw [numberPiece_plain hm hu]
    refine .inl ⟨(mantissa (m ++ u)).2, ?_⟩
    dsimp only
    rw [List.take_left]
    exact ⟨rfl, .plain hm'⟩

/-- The number that is taken is a numeral. -/
theorem isNumeral_numberPiece (h : numberPiece s = (.token kind literal, n)) (hstart : 0 < (mantissa s).1) :
    IsNumeral (s.take n) := by
  rcases numberPiece_cases hstart with ⟨isReal, -, hnumeral⟩ | ⟨m, sign, u, e, -, hfault, -⟩
  · rwa [h] at hnumeral
  · cases h.symm.trans hfault

theorem longest_numberPiece (hb : (isDigit b || (b == byte '.' && t.head?.any isDigit)) = true)
    (h : numberPiece (b :: t) = (.token kind literal, n + 1)) : Longest kind (b :: t.take n) (t.drop n) := by
  obtain rfl : kind = .number := numberPiece_kind (by rw [h])
  have hfirst : startsNumber b = true := by
    rcases Bool.or_eq_true_iff.1 hb with hb | hb
    · simp [startsNumber, hb]
    · simp [startsNumber, (Bool.and_eq_true_iff.1 hb).1]
  have hnumeral : IsNumeral (b :: t.take n) := isNumeral_numberPiece h (mantissa_pos hb).1
  refine longest_of_cons (.number hnumeral) fun kind' t' u' heq hspells => ?_
  rw [List.take_append_drop] at heq
  have hlength := (hspells.of_number hfirst).length_le u'
  rw [List.cons_append, heq, h] at hlength
  have hn : n ≤ t.length := by
    have hwithin := (within_numberPiece (b :: t)).size_le
    rw [h] at hwithin
    exact Nat.le_of_succ_le_succ hwithin
  rw [List.length_take, Nat.min_eq_left hn]
  exact Nat.le_of_succ_le_succ hlength

end Numbers

/-! ## Operators -/

section Operators

variable {kind : Kind} {literal : Option Value} {before : Before} {b : UInt8} {t : Text} {n : Nat}

/-- An operator by its first byte and the rest. -/
theorem IsOperator.cases_cons (h : IsOperator kind (b :: t)) :
    (∃ spelling, (spelling, kind) ∈ signs ∧ ofString spelling = b :: t) ∨
      (b = byte '-' ∧ t = [byte '-']) ∨
      b = byte '[' ∧ ∃ body, t = body ++ [byte ']'] ∧ body.length ≤ 1 := by
  generalize htext : b :: t = text at h
  cases h with
  | sign hmem =>
    rcases signs_of_mem_spellings hmem with hmem | ⟨rfl, -⟩
    · exact .inl ⟨_, hmem, rfl⟩
    · exact .inr (.inl (List.cons.inj htext))
  | escape hshort _ =>
    obtain ⟨rfl, rfl⟩ := List.cons.inj htext
    exact .inr (.inr ⟨rfl, _, rfl, hshort⟩)

/-- Longer signs come first, so the first that fits is the longest. -/
theorem length_le_of_sign? {s : Text} {size : Nat} {spelling : String} {kind' : Kind}
    (h : sign? s = some (kind, size)) (hmem : (spelling, kind') ∈ signs) (hspelled : ofString spelling <+: s) :
    (ofString spelling).length ≤ size := by
  have hsorted : signs.Pairwise fun entry entry' => (ofString entry'.1).length ≤ (ofString entry.1).length := by decide
  obtain ⟨entry, hentry, heq⟩ := Option.map_eq_some_iff.1 h
  obtain ⟨rfl, rfl⟩ := Prod.mk.inj heq
  obtain ⟨-, earlier, later, hsigns, hearlier⟩ := List.find?_eq_some_iff_append.1 hentry
  rw [hsigns] at hsorted hmem
  rcases List.mem_append.1 hmem with hmem | hmem
  · have hskipped := hearlier _ hmem
    rw [List.isPrefixOf_iff_prefix.2 hspelled] at hskipped
    cases hskipped
  · rcases List.mem_cons.1 hmem with rfl | hmem
    · exact Nat.le_refl _
    · obtain ⟨-, hrest, -⟩ := List.pairwise_append.1 hsorted
      exact (List.pairwise_cons.1 hrest).1 (_, _) hmem

theorem longest_sign {size : Nat} (h : sign? (b :: t) = some (kind, size + 1))
    (hminus : ¬(b == byte '-' && t.head? == some (byte '-')) = true) :
    Longest kind (b :: t.take size) (t.drop size) := by
  obtain ⟨hmark, hpoint, hdigit, hletter, -⟩ := sign_first h
  obtain ⟨spelling, hmem, hsize, htake⟩ := sign?_eq_some h
  have hspells : Spells kind (b :: t.take size) (t.drop size) := by
    rw [← List.take_succ_cons, htake]
    exact .operator (.sign (sign_mem_spellings hmem))
  have hn : size ≤ t.length := by
    have hlength := congrArg List.length htake
    rw [← hsize, List.take_succ_cons, List.length_cons, List.length_take] at hlength
    omega
  refine longest_of_cons hspells fun kind' t' u' heq hspells' => ?_
  rw [List.take_append_drop] at heq
  rw [List.length_take, Nat.min_eq_left hn]
  have hoperator := hspells'.of_operator hletter (by simp [startsNumber, hdigit, hpoint])
  rcases hoperator.cases_cons with ⟨spelling', hmem', hspelling⟩ | ⟨rfl, rfl⟩ | ⟨rfl, -⟩
  · have hstart : ofString spelling' <+: b :: t := ⟨u', by rw [hspelling, List.cons_append, heq]⟩
    have hle := length_le_of_sign? h hmem' hstart
    rw [hspelling] at hle
    exact Nat.le_of_succ_le_succ hle
  · exact absurd (by rw [← heq]; rfl) hminus
  · exact absurd (by decide) hmark

/-- No operator that starts with two minus signs is longer than them. -/
theorem longest_decrement (t : Text) : Longest .minusMinus (byte '-' :: [byte '-']) t := by
  refine longest_of_cons (.operator .decrement) fun kind' t' u' heq hspells => ?_
  rcases (hspells.of_operator (by decide) (by decide)).cases_cons with ⟨spelling, hmem, hspelling⟩ | ⟨-, rfl⟩ | ⟨hb, -⟩
  · have htable : ∀ entry ∈ signs, (ofString entry.1).length ≤ 2 := by decide
    have hle := htable _ hmem
    rw [hspelling] at hle
    exact Nat.le_of_succ_le_succ hle
  · exact Nat.le_refl _
  · exact absurd hb (by decide)

/-- An escape has at most one byte between its brackets, and a closing bracket
where one follows. -/
theorem escapePiece_token (h : escapePiece t = (.token kind literal, n)) : kind = .escape ∧ ∃ body u,
    t = body ++ byte ']' :: u ∧ n = body.length + 1 ∧ body.length ≤ 1 ∧ lineFeed ∉ body ∧
      (body = [] → u.head? ≠ some (byte ']')) ∧ literal = some (.pulong (body.map escapeValue)) := by
  obtain ⟨u, ht, hbody, -⟩ := exists_takeWhile (fun b => b != byte ']' && b != lineFeed) t
  unfold escapePiece at h
  generalize t.takeWhile (fun b => b != byte ']' && b != lineFeed) = body at ht hbody h
  subst ht
  dsimp only at h
  rw [List.drop_left] at h
  split at h
  · next rest =>
    split at h
    · split at h
      · next hdouble =>
        obtain ⟨hpiece, rfl⟩ := Prod.mk.inj h
        obtain ⟨u, rfl⟩ := List.head?_eq_some_iff.1 (beq_iff_eq.1 hdouble)
        obtain ⟨rfl, rfl⟩ := Piece.token.inj hpiece
        exact ⟨rfl, [byte ']'], u, rfl, rfl, Nat.le_refl _, by decide, by simp, rfl⟩
      · next hsingle =>
        obtain ⟨hpiece, rfl⟩ := Prod.mk.inj h
        obtain ⟨rfl, rfl⟩ := Piece.token.inj hpiece
        refine ⟨rfl, [], rest, rfl, rfl, Nat.zero_le _, by simp, fun _ hclosed => ?_, rfl⟩
        exact hsingle (beq_iff_eq.2 hclosed)
    · next b =>
      obtain ⟨hpiece, rfl⟩ := Prod.mk.inj h
      obtain ⟨rfl, rfl⟩ := Piece.token.inj hpiece
      have hb := hbody b List.mem_cons_self
      refine ⟨rfl, [b], rest, rfl, rfl, Nat.le_refl _, ?_, by simp, rfl⟩
      rintro hmem
      obtain rfl := List.mem_singleton.1 hmem
      simp at hb
    · cases h
  · cases h

theorem longest_escapePiece (h : escapePiece t = (.token kind literal, n)) :
    Longest kind (byte '[' :: t.take n) (t.drop n) := by
  obtain ⟨rfl, body, u, rfl, rfl, hshort, hline, hopen, -⟩ := escapePiece_token h
  have hdrop : (body ++ byte ']' :: u).drop (body.length + 1) = u := by
    rw [List.drop_length_add_append]
    rfl
  rw [take_succ_append, hdrop]
  refine longest_of_cons (.operator (.escape hshort hline)) fun kind' t' u' heq hspells => ?_
  rcases (hspells.of_operator (by decide) (by decide)).cases_cons with
    ⟨spelling, hmem, hspelling⟩ | ⟨hb, -⟩ | ⟨-, body', rfl, hshort'⟩
  · have htable : ∀ entry ∈ signs, (ofString entry.1).head? ≠ some (byte '[') := by decide
    exact absurd (congrArg List.head? hspelling) (htable (_, _) hmem)
  · exact absurd hb (by decide)
  · rw [List.length_append, List.length_append]
    refine Nat.add_le_add_right ?_ 1
    cases body with
    | cons c body => exact Nat.le_trans hshort' (Nat.succ_le_succ (Nat.zero_le _))
    | nil =>
      cases body' with
      | nil => exact Nat.le_refl _
      | cons c body' =>
        -- the longer escape would be a closing bracket between brackets
        obtain rfl : body' = [] := List.length_eq_zero_iff.1 (Nat.le_zero.1 (Nat.le_of_succ_le_succ hshort'))
        obtain ⟨-, rfl⟩ := List.cons.inj heq
        exact absurd rfl (hopen rfl)

end Operators

/-! ## Any token -/

section AnyToken

variable {kind : Kind} {literal : Option Value} {before : Before} {b : UInt8} {t u : Text} {n : Nat}

/-- Quotes are the only lexemes that the grammar above leaves out. -/
theorem Cuts.longest (h : Cuts b t (.token kind literal, n)) (hquoted : kind ∉ [Kind.string, .char])
    (hminus : ¬(b == byte '-' && t.head? == some (byte '-')) = true) : Longest kind (b :: t.take n) (t.drop n) := by
  cases h with
  | string _ h =>
    unfold stringPiece at h
    dsimp only at h
    split at h <;> cases h
    exact absurd (by simp) hquoted
  | char _ h =>
    unfold charPiece at h
    dsimp only at h
    repeat' split at h
    all_goals cases h
    exact absurd (by simp) hquoted
  | escape hb hfound => exact hb ▸ longest_escapePiece hfound
  | number hb hnumber hfound =>
    obtain ⟨rfl, rfl⟩ := Prod.mk.inj hfound
    obtain ⟨hpos, -⟩ := numberPiece_pos hb
    rw [hnumber] at hpos
    obtain ⟨size, rfl⟩ := Nat.exists_eq_add_one.2 hpos
    exact longest_numberPiece hb hnumber
  | word hb hfound => exact longest_wordPiece hb hfound
  | sign hsign hfound =>
    obtain ⟨hpiece, rfl⟩ := Prod.mk.inj hfound
    obtain ⟨rfl, rfl⟩ := Piece.token.inj hpiece
    obtain ⟨-, -, -, -, hpos⟩ := sign_first hsign
    obtain ⟨size, rfl⟩ := Nat.exists_eq_add_one.2 hpos
    exact longest_sign hsign hminus

/-- At each place the token that is taken is the longest lexeme. -/
theorem longest_pieceAt (h : pieceAt before b t = (.token kind literal, n)) (hquoted : kind ∉ [Kind.string, .char]) :
    Longest kind (b :: t.take n) (t.drop n) := by
  by_cases hminus : (b == byte '-' && t.head? == some (byte '-')) = true
  · unfold pieceAt at h
    rw [if_pos hminus] at h
    simp only [Bool.and_eq_true, beq_iff_eq] at hminus
    obtain ⟨rfl, hhead⟩ := hminus
    obtain ⟨t, rfl⟩ := List.head?_eq_some_iff.1 hhead
    split at h
    · obtain ⟨hpiece, rfl⟩ := Prod.mk.inj h
      obtain ⟨rfl, rfl⟩ := Piece.token.inj hpiece
      exact longest_decrement t
    · cases h
  · exact (cuts_pieceAt hminus h).longest hquoted hminus

/-- The kind of a word, by its whole spelling. -/
def wordKind (t : Text) : Kind := (wordKinds.find? fun k => (spellings k).any (·.text == t)).getD .identifier

/-- A word is no sign, and it has no space in it, so it is no phrase. -/
theorem Spells.text_ne (h : Spells .identifier t u) {s : Spelling} (hs : s ∈ spellings kind) : s.text ≠ t := by
  cases h with
  | operator h =>
    cases h with
    | sign hmem => cases hmem
  | phrase hmem | keyword hmem => cases hmem
  | name hword hnone =>
    rintro rfl
    obtain ⟨b, tail, htext, hb, htail⟩ := hword
    cases s with
    | sign s =>
      have hfirst := (IsOperator.sign hs).first
      rw [show ofString s = b :: tail from htext] at hfirst
      simp [hb] at hfirst
    | word s => exact hnone kind s hs rfl
    | phrase first second =>
      obtain ⟨b', tail', hparts, -, -, -⟩ := phrase_parts hs
      obtain ⟨-, rfl⟩ := List.cons.inj (htext.symm.trans hparts)
      exact absurd (htail 32 (by simp)) (by decide)

theorem Spells.wordKind_eq (h : Spells kind t u) (hkind : kind ∈ wordKinds) : kind = wordKind t := by
  have htable : ∀ k ∈ wordKinds, ∀ s ∈ spellings k, k = wordKind s.text := by decide +kernel
  cases h with
  | operator h =>
    cases h with
    | sign hmem => exact htable kind hkind _ hmem
    | escape => exact absurd hkind (by decide)
  | number => exact absurd hkind (by decide)
  | phrase hmem => exact htable kind hkind _ hmem
  | keyword hmem => exact htable kind hkind _ hmem
  | name hword hnone =>
    have hname : Spells .identifier t u := .name hword hnone
    have hnot : ∀ k ∈ wordKinds, ¬(spellings k).any (·.text == t) = true := by
      intro k _ hany
      obtain ⟨s, hs, heq⟩ := List.any_eq_true.1 hany
      exact hname.text_ne hs (beq_iff_eq.1 heq)
    rw [wordKind, List.find?_eq_none.2 hnot]
    rfl

end AnyToken

/-! ## The whole source -/

section Source

variable {before : Before} {pos line : Nat} {t : Text}

/-- Each segment is cut at the place where those before it end, and those behind
it are cut from the rest. -/
theorem segmentsFrom_eq_append {front back : List Segment} {s : Segment}
    (h : segmentsFrom before pos line t = front ++ s :: back) :
    ∃ before' b u n, t = front.flatMap (·.bytes) ++ b :: u ∧ pieceAt before' b u = (s.piece, n) ∧
      s.bytes = b :: u.take n ∧ s.pos = pos + (front.flatMap (·.bytes)).length ∧
      back = segmentsFrom (before'.after s.piece) (s.pos + s.bytes.length) s.nextLine (u.drop n) := by
  induction front generalizing before pos line t with
  | nil =>
    cases t with
    | nil => simp [segmentsFrom] at h
    | cons b t =>
      rw [segmentsFrom] at h
      obtain ⟨rfl, rfl⟩ := List.cons.inj h
      exact ⟨before, b, t, _, rfl, rfl, rfl, rfl, rfl⟩
  | cons first front ih =>
    cases t with
    | nil => simp [segmentsFrom] at h
    | cons b t =>
      rw [segmentsFrom] at h
      obtain ⟨rfl, hrest⟩ := List.cons.inj h
      obtain ⟨before', b', u, n, htext, hpiece, hbytes, hpos, hback⟩ := ih hrest
      refine ⟨before', b', u, n, ?_, hpiece, hbytes, ?_, hback⟩
      · rw [List.flatMap_cons, List.append_assoc, ← htext]
        simp
      · rw [hpos, List.flatMap_cons, List.length_append, Nat.add_assoc]

/-- A word that a space precedes gives the first token from there. -/
theorem tokens_space_letter {b : UInt8} (hb : isLetter b = true) : ∃ next more,
    (segmentsFrom before pos line (32 :: b :: t)).filterMap Segment.token? = next :: more ∧
      next.pos = some (pos + 1) ∧ next.kind ∈ wordKinds := by
  have hminus : ¬(b == byte '-' && t.head? == some (byte '-')) = true := by
    intro h
    obtain rfl := beq_iff_eq.1 (Bool.and_eq_true_iff.1 h).1
    exact absurd hb (by decide)
  have hword : pieceAt (before.after .blank) b t = wordPiece b t := (Cuts.word hb rfl).pieceAt_eq _ hminus
  obtain ⟨kind, literal, hpiece⟩ : ∃ kind literal, (wordPiece b t).1 = .token kind literal := by
    unfold wordPiece
    dsimp only
    split <;> exact ⟨_, _, rfl⟩
  have hblank : pieceAt before 32 (b :: t) = (.blank, 0) := by
    cases before
    rfl
  rw [segmentsFrom, hblank, List.drop_zero, segmentsFrom, hword, hpiece]
  exact ⟨_, _, rfl, rfl, wordPiece_kind hpiece⟩

/-- A token other than the last is a segment of the source. -/
theorem exists_segment {source : Text} {front back : List Token} {token : Token}
    (h : (scan source).tokens = front ++ token :: back) (hkind : token.kind ≠ .eof) :
    ∃ earlier s later, segments source = earlier ++ s :: later ∧ s.token? = some token ∧
      ∃ last, back = later.filterMap Segment.token? ++ [last] := by
  obtain ⟨last, hlast, htokens⟩ : ∃ last : Token, last.kind = .eof ∧
      (scan source).tokens = (segments source).filterMap Segment.token? ++ [last] := ⟨_, rfl, rfl⟩
  rw [htokens] at h
  rcases List.eq_nil_or_concat back with rfl | ⟨back, last', rfl⟩
  · obtain ⟨-, heq⟩ := List.append_inj' h rfl
    obtain rfl := List.singleton_inj.1 heq
    exact absurd hlast hkind
  · rw [List.concat_eq_append, ← List.cons_append, ← List.append_assoc] at h
    obtain ⟨hbody, -⟩ := List.append_inj' h rfl
    obtain ⟨earlier, rest, hsegments, -, hrest⟩ := List.filterMap_eq_append_iff.1 hbody
    obtain ⟨skipped, s, later, rfl, -, hs, rfl⟩ := List.filterMap_eq_cons_iff.1 hrest
    refine ⟨earlier ++ skipped, s, later, ?_, hs, last', List.concat_eq_append⟩
    rw [hsegments, List.append_assoc]

end Source

/-- Every operator, word and number is the longest lexeme at its place. What a word
is depends on its whole spelling, so no name spells a keyword or a phrase, and a
word that a space and a letter follow leaves the next word to be a token of its
own. -/
theorem scan_takes_longest (source : Text) (front back : List Token) (token : Token)
    (htokens : (scan source).tokens = front ++ token :: back) (hkind : token.kind ∉ [Kind.string, .char, .eof]) :
    ∃ before after, source = before ++ token.lexeme ++ after ∧ token.pos = some before.length ∧
      Longest token.kind token.lexeme after ∧
      (token.kind ∈ wordKinds → token.kind = wordKind token.lexeme) ∧
      (token.kind = .identifier → ∀ kind, ∀ s ∈ spellings kind, s.text ≠ token.lexeme) ∧
      (∀ b rest, after = 32 :: b :: rest → isLetter b = true → ∃ next more, back = next :: more ∧
        next.pos = some (before.length + token.lexeme.length + 1) ∧ next.kind ∈ wordKinds) := by
  simp only [List.mem_cons, List.not_mem_nil, or_false, not_or] at hkind
  obtain ⟨hstring, hchar, heof⟩ := hkind
  obtain ⟨earlier, s, later, hsegments, htoken, last, rfl⟩ := exists_segment htokens heof
  obtain ⟨before, b, u, n, hsource, hpiece, hbytes, hpos, rfl⟩ := segmentsFrom_eq_append hsegments
  rw [Nat.zero_add] at hpos
  unfold Segment.token? at htoken
  split at htoken
  · next kind literal heq =>
    obtain rfl := Option.some.inj htoken
    rw [heq] at hpiece
    have hlongest : Longest kind s.bytes (u.drop n) := by
      rw [hbytes]
      exact longest_pieceAt hpiece (by simp [hstring, hchar])
    have hword : kind ∈ wordKinds → kind = wordKind s.bytes := hlongest.spells.wordKind_eq
    refine ⟨earlier.flatMap (·.bytes), u.drop n, ?_, congrArg some hpos, hlongest, hword, ?_, ?_⟩
    · rw [hsource, hbytes]
      simp
    · rintro rfl kind s hs
      exact hlongest.spells.text_ne hs
    · rintro b' rest hafter hb'
      obtain ⟨next, more, hnext, hplace, hnextKind⟩ := tokens_space_letter hb'
      rw [hafter, hnext]
      exact ⟨next, more ++ [last], rfl, by rw [hplace, hpos], hnextKind⟩
  · cases htoken

/-- No phrase starts with the first two words, so each is a token of its own. The
next two are a phrase, and the sign behind it has two bytes. -/
theorem scan_takes_longest_phrases :
    let source : Text := "KUNG PAG KUNG PA<=1"
    (scan source).tokens = [⟨.kung, "KUNG", none, 1, some 0⟩, ⟨.identifier, "PAG", none, 1, some 5⟩,
      ⟨.kungPa, "KUNG PA", none, 1, some 9⟩, ⟨.lessEqual, "<=", none, 1, some 16⟩,
      ⟨.number, "1", some (.numero 1), 1, some 18⟩, ⟨.eof, "", none, 1, some 19⟩] ∧
    Longest .kung "KUNG" " PAG KUNG PA<=1" ∧ Longest .kungPa "KUNG PA" "<=1" ∧ Longest .lessEqual "<=" "1" := by
  intro source
  have htokens : (scan source).tokens = [⟨.kung, "KUNG", none, 1, some 0⟩, ⟨.identifier, "PAG", none, 1, some 5⟩,
      ⟨.kungPa, "KUNG PA", none, 1, some 9⟩, ⟨.lessEqual, "<=", none, 1, some 16⟩,
      ⟨.number, "1", some (.numero 1), 1, some 18⟩, ⟨.eof, "", none, 1, some 19⟩] := by decide +kernel
  have hplace : ∀ (token : Token) (pos : Nat), token.pos = some pos →
      (∃ before after, source = before ++ token.lexeme ++ after ∧ token.pos = some before.length ∧
        Longest token.kind token.lexeme after) →
      Longest token.kind token.lexeme (source.drop (pos + token.lexeme.length)) := by
    rintro token pos hpos ⟨before, after, hsource, hbefore, hlongest⟩
    obtain rfl := Option.some.inj (hpos.symm.trans hbefore)
    rw [hsource, List.append_assoc, List.drop_length_add_append, List.drop_left]
    exact hlongest
  refine ⟨htokens, ?_, ?_, ?_⟩
  · obtain ⟨before, after, hsource, hpos, hlongest, -⟩ := scan_takes_longest source [] _ _ htokens (by decide)
    exact hplace ⟨.kung, "KUNG", none, 1, some 0⟩ 0 rfl ⟨before, after, hsource, hpos, hlongest⟩
  · obtain ⟨before, after, hsource, hpos, hlongest, -⟩ := scan_takes_longest source [_, _] _ _ htokens (by decide)
    exact hplace ⟨.kungPa, "KUNG PA", none, 1, some 9⟩ 9 rfl ⟨before, after, hsource, hpos, hlongest⟩
  · obtain ⟨before, after, hsource, hpos, hlongest, -⟩ := scan_takes_longest source [_, _, _] _ _ htokens (by decide)
    exact hplace ⟨.lessEqual, "<=", none, 1, some 16⟩ 16 rfl ⟨before, after, hsource, hpos, hlongest⟩

end BisayaPlus.Scan
