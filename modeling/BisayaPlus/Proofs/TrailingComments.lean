import Mathlib.Data.List.Basic
import BisayaPlus.Proofs.LineFeeds
import BisayaPlus.Proofs.RelocatedRuns
/-!
# Trailing comments change nothing

A comment may be added at the end of every line, behind a space. It is never
taken for a decrement, since no name ends right before it and no letter follows
its signs, and it does not change what the last lexeme of the line looks at: no
number, phrase or sign goes on with a space and a minus sign. So the tokens are
the same, only farther on from there, and the program is read and run as before.
-/

set_option autoImplicit false

namespace BisayaPlus

open Text

namespace Scan

/-! ## Where no lexeme goes on -/

/-- Nothing, a line feed, or a space and a minus sign. -/
inductive Closes : Text → Prop where
  | nil : Closes []
  | line (rest : Text) : Closes (lineFeed :: rest)
  | comment (rest : Text) : Closes (32 :: byte '-' :: rest)

section Closes

variable {r : Text}

/-- A class without the line feed and the space. -/
theorem Closes.head?_not (h : Closes r) {p : UInt8 → Bool} (hline : p lineFeed = false) (hspace : p 32 = false) :
    ∀ c ∈ r.head?, p c = false := by
  intro c hc
  cases h with
  | nil => cases hc
  | line rest => rwa [← Option.some.inj hc]
  | comment rest => rwa [← Option.some.inj hc]

theorem takeWhile_append_head {p : UInt8 → Bool} (hr : ∀ c ∈ r.head?, p c = false) (t : Text) :
    (t ++ r).takeWhile p = t.takeWhile p := by
  obtain ⟨u, ht, hwhile, hu⟩ := exists_takeWhile p t
  rw [ht, List.append_assoc, takeWhile_append_stop hwhile hu, takeWhile_append_stop hwhile]
  cases u with
  | nil => exact hr
  | cons c u => exact hu

theorem head?_append_not {p : UInt8 → Bool} {t : Text} (ht : ∀ c ∈ t.head?, p c = false)
    (hr : ∀ c ∈ r.head?, p c = false) : ∀ c ∈ (t ++ r).head?, p c = false := by
  cases t with
  | nil => exact hr
  | cons b t => exact ht

theorem any_head?_append {p : UInt8 → Bool} (hr : ∀ c ∈ r.head?, p c = false) (t : Text) :
    (t ++ r).head?.any p = t.head?.any p := by
  cases t with
  | cons b t => rfl
  | nil =>
    cases r with
    | nil => rfl
    | cons c r => exact hr c rfl

/-! ## Numbers, words and signs in front of it -/

theorem mantissa_closed (hr : Closes r) (s : Text) : mantissa (s ++ r) = mantissa s := by
  have hdigit : ∀ c ∈ r.head?, isDigit c = false := hr.head?_not rfl rfl
  obtain ⟨v, hs, hwhole, hv⟩ := exists_takeWhile isDigit s
  generalize s.takeWhile isDigit = whole at hs hwhole
  subst hs
  by_cases hfraction : ∃ x, v = 46 :: x ∧ x.takeWhile isDigit ≠ []
  · obtain ⟨x, rfl, hne⟩ := hfraction
    obtain ⟨w, hx, hdigits, hw⟩ := exists_takeWhile isDigit x
    generalize x.takeWhile isDigit = fraction at hx hdigits hne
    subst hx
    have htext : whole ++ 46 :: (fraction ++ w) ++ r = whole ++ 46 :: (fraction ++ (w ++ r)) := by simp
    rw [htext, mantissa_fraction hwhole hdigits hne (head?_append_not hw hdigit),
      mantissa_fraction hwhole hdigits hne hw]
  · have hpoint : ∀ x, v = 46 :: x → x.takeWhile isDigit = [] := fun x hx =>
      Classical.byContradiction fun hne => hfraction ⟨x, hx, hne⟩
    have hpoint' : ∀ x, v ++ r = 46 :: x → x.takeWhile isDigit = [] := by
      intro x hx
      cases v with
      | nil => cases hr <;> cases hx
      | cons c v =>
        obtain ⟨rfl, rfl⟩ := List.cons.inj hx
        exact (takeWhile_append_head hdigit v).trans (hpoint v rfl)
    rw [List.append_assoc, mantissa_whole hwhole (head?_append_not hv hdigit) hpoint', mantissa_whole hwhole hv hpoint]

theorem signSize_closed (hr : Closes r) (t : Text) : signSize (t ++ r) = signSize t := by
  cases t with
  | cons b t => rfl
  | nil => cases hr <;> rfl

theorem numberPiece_closed (hr : Closes r) (s : Text) : numberPiece (s ++ r) = numberPiece s := by
  obtain ⟨m, u, rfl, hm⟩ : ∃ m u, s = m ++ u ∧ mantissa s = (m.length, (mantissa s).2) := by
    refine ⟨s.take (mantissa s).1, s.drop (mantissa s).1, (List.take_append_drop ..).symm, ?_⟩
    rw [List.length_take, Nat.min_eq_left (mantissa_le s)]
  have hm' := (mantissa_closed hr (m ++ u)).trans hm
  rw [List.append_assoc] at hm' ⊢
  by_cases hexponent : ∃ e ∈ u.head?, (lowerByte e == byte 'e') = true
  · obtain ⟨e, heq, he⟩ := hexponent
    obtain ⟨v, rfl⟩ : ∃ v, u = e :: v := List.head?_eq_some_iff.1 heq
    obtain ⟨sign, w, rfl, hsign⟩ : ∃ sign w, v = sign ++ w ∧ signSize v = sign.length := by
      refine ⟨v.take (signSize v), v.drop (signSize v), (List.take_append_drop ..).symm, ?_⟩
      rw [List.length_take, Nat.min_eq_left (signSize_le v)]
    obtain ⟨x, hw, hdigits, hx⟩ := exists_takeWhile isDigit w
    generalize w.takeWhile isDigit = digits at hw hdigits
    subst hw
    have hsign' := (signSize_closed hr (sign ++ (digits ++ x))).trans hsign
    have htext : e :: (sign ++ (digits ++ x)) ++ r = e :: (sign ++ (digits ++ (x ++ r))) := by simp
    rw [List.append_assoc, List.append_assoc] at hsign'
    rw [htext] at hm' ⊢
    rw [numberPiece_exponent hm he hsign hdigits hx,
      numberPiece_exponent hm' he hsign' hdigits (head?_append_not hx (hr.head?_not rfl rfl))]
  · have hu : ∀ c ∈ u.head?, (lowerByte c == byte 'e') = false := by
      intro c hc
      simpa using fun he => hexponent ⟨c, hc, by simpa using he⟩
    rw [numberPiece_plain hm hu, numberPiece_plain hm' (head?_append_not hu ?_)]
    exact hr.head?_not (p := fun c => lowerByte c == byte 'e') rfl rfl

/-- No phrase ends with a space. -/
theorem spelled?_phrases_space (word : Text) : spelled? phrases (word ++ [32]) = none := by
  have htable : ∀ entry ∈ phrases, (ofString entry.1).getLast? ≠ some 32 := by decide
  refine Option.map_eq_none_iff.2 (List.find?_eq_none.2 fun entry hentry hspelled => htable entry hentry ?_)
  rw [beq_iff_eq.1 hspelled, List.getLast?_concat]

theorem phrase?_other (word : Text) {c : UInt8} (hc : c ≠ 32) (t : Text) : phrase? word (c :: t) = none := by
  unfold phrase?
  split
  · next heq => exact absurd (List.cons.inj heq).1 hc
  · rfl

theorem phrase?_closed (hr : Closes r) (word t : Text) : phrase? word (t ++ r) = phrase? word t := by
  cases t with
  | nil =>
    cases hr with
    | nil => rfl
    | line rest => exact phrase?_other word (by decide) rest
    | comment rest =>
      rw [List.nil_append, phrase?_space, show (byte '-' :: rest).takeWhile isWordByte = [] from rfl,
        spelled?_phrases_space]
      rfl
  | cons c t =>
    rw [List.cons_append]
    by_cases hc : c = 32
    · subst hc
      rw [phrase?_space, phrase?_space, takeWhile_append_head (hr.head?_not rfl rfl)]
    · rw [phrase?_other word hc, phrase?_other word hc]

theorem wordPiece_closed (hr : Closes r) (b : UInt8) (t : Text) : wordPiece b (t ++ r) = wordPiece b t := by
  unfold wordPiece
  dsimp only
  rw [takeWhile_append_head (hr.head?_not rfl rfl), List.drop_append_of_le_length (length_takeWhile_le isWordByte t),
    phrase?_closed hr]

theorem sign?_closed (hr : Closes r) {q : Text} (hq : q ≠ []) : sign? (q ++ r) = sign? q := by
  have htable : ∀ entry ∈ signs, lineFeed ∉ (ofString entry.1).tail ∧ 32 ∉ (ofString entry.1).tail := by decide
  unfold sign?
  rw [List.find?_congr fun entry hentry => isPrefixOf_append hq fun c hc => ?_]
  have hclass := hr.head?_not (p := fun c => decide (c ∈ (ofString entry.1).tail)) (by simp [htable entry hentry])
    (by simp [htable entry hentry]) c hc
  simpa using hclass

theorem isDecrement_closed (hr : Closes r) (before : Before) (t : Text) :
    isDecrement before (t ++ r) = isDecrement before t := by
  unfold isDecrement
  rw [any_head?_append (hr.head?_not rfl rfl)]

end Closes

/-! ## The same segments -/

section Segments

variable {before : Before} {b : UInt8} {t r r' : Text} {kind : Kind} {literal : Option Value} {n : Nat}

theorem take_append_drop_append (hn : n ≤ t.length) : (t ++ r).take n ++ (t.drop n ++ r') = t ++ r' := by
  rw [List.take_append_of_le_length hn, ← List.append_assoc, List.take_append_drop]

/-- A token that ends before it is cut in the same way whatever closes. -/
theorem Cuts.closed (h : Cuts b (t ++ r) (.token kind literal, n)) (hn : n ≤ t.length) (hr : Closes r)
    (hr' : Closes r') : Cuts b (t ++ r') (.token kind literal, n) := by
  have htext : (t ++ r).take n ++ (t.drop n ++ r') = t ++ r' := take_append_drop_append hn
  cases h with
  | string hb hfound => exact .string hb (htext ▸ stringPiece_append hfound)
  | char hb hfound => exact .char hb (htext ▸ charPiece_append hfound)
  | escape hb hfound =>
    refine .escape hb (htext ▸ escapePiece_append hfound fun hclosed => ?_)
    rw [List.drop_append_of_le_length hn]
    cases hd : t.drop n with
    | cons c u => rwa [hd] at hclosed
    | nil =>
      rw [hd, List.nil_append] at hclosed
      cases hr' <;> cases hclosed
  | number hb hnumber hfound =>
    rw [← List.cons_append, numberPiece_closed hr] at hnumber
    rw [any_head?_append (hr.head?_not rfl rfl)] at hb
    refine .number ?_ ?_ hfound
    · rwa [any_head?_append (hr'.head?_not rfl rfl)]
    · rwa [← List.cons_append, numberPiece_closed hr']
  | word hb hfound =>
    rw [wordPiece_closed hr] at hfound
    exact .word hb ((wordPiece_closed hr' b t).trans hfound)
  | sign hsign hfound =>
    rw [← List.cons_append, sign?_closed hr (List.cons_ne_nil b t)] at hsign
    exact .sign ((sign?_closed hr' (List.cons_ne_nil b t)).trans hsign) hfound

theorem head?_append_minus (hr : Closes r) :
    ((t ++ r).head? == some (byte '-')) = (t.head? == some (byte '-')) := by
  cases t with
  | cons c t => rfl
  | nil => cases hr <;> rfl

/-- A token or a blank that ends before it is found whatever closes. -/
theorem pieceAt_token_closed (h : pieceAt before b (t ++ r) = (.token kind literal, n)) (hn : n ≤ t.length)
    (hr : Closes r) (hr' : Closes r') : pieceAt before b (t ++ r') = (.token kind literal, n) := by
  by_cases hminus : (b == byte '-' && t.head? == some (byte '-')) = true
  · simp only [Bool.and_eq_true, beq_iff_eq] at hminus
    obtain ⟨rfl, hhead⟩ := hminus
    obtain ⟨t, rfl⟩ := List.head?_eq_some_iff.1 hhead
    rw [List.cons_append, pieceAt_minus, isDecrement_closed hr] at h
    rw [List.cons_append, pieceAt_minus, isDecrement_closed hr']
    by_cases hd : isDecrement before t = true
    · rwa [if_pos hd] at h ⊢
    · rw [if_neg hd] at h
      cases h
  · have hcuts := cuts_pieceAt (by rwa [head?_append_minus hr]) h
    exact (hcuts.closed hn hr hr').pieceAt_eq before (by rwa [head?_append_minus hr'])

theorem pieceAt_blank (h : pieceAt before b t = (.blank, n)) (u : Text) : n = 0 ∧ pieceAt before b u = (.blank, 0) := by
  have hfits := fits_pieceAt before b t
  rw [h] at hfits
  cases hfits with
  | blank hblank =>
    have hb : b = 32 ∨ b = 9 ∨ b = 13 := by
      rcases hblank with h | h | h <;> simp [(List.cons.inj h).1]
    have hany : ∀ v, pieceAt before b v = (.blank, 0) := by
      intro v
      rcases hb with rfl | rfl | rfl <;> rfl
    rw [hany] at h
    exact ⟨(Prod.mk.inj h).2.symm, hany u⟩

/-- A comment goes on to the end of its line. -/
theorem pieceAt_comment (h : pieceAt before b t = (.comment, n)) :
    ∃ u, b = byte '-' ∧ t = byte '-' :: u ∧ isDecrement before u = false ∧
      n = (t.takeWhile (· != lineFeed)).length := by
  have hfits := fits_pieceAt before b t
  rw [h] at hfits
  cases hfits with
  | comment hcomment =>
    obtain ⟨rfl, hhead⟩ := head?_of_isComment hcomment
    obtain ⟨u, rfl⟩ := List.head?_eq_some_iff.1 hhead
    rw [pieceAt_minus] at h
    cases hd : isDecrement before u with
    | true => simp [hd] at h
    | false =>
      simp only [hd, Bool.false_eq_true, if_false, Prod.mk.injEq, true_and] at h
      exact ⟨u, rfl, rfl, hd, h.symm⟩

end Segments

/-! ## A comment at the end of a line -/

theorem EndsLine.closes {r : Text} (h : EndsLine r) : Closes r := by
  rcases h.cases with rfl | ⟨rest, rfl⟩
  · exact .nil
  · exact .line rest

/-- A comment with this text, behind a space. -/
def trailingComment (text : Text) : Text := (" -- " : String) ++ text

theorem trailingComment_eq (text : Text) : trailingComment text = 32 :: byte '-' :: byte '-' :: 32 :: text := rfl

section Insertion

variable {before : Before} {b : UInt8} {pos line n : Nat} {text t r : Text} {piece : Piece}

theorem closes_trailingComment (text r : Text) : Closes (trailingComment text ++ r) := .comment _

theorem lineFeed_not_mem_trailingComment (htext : lineFeed ∉ text) : lineFeed ∉ trailingComment text := by
  rw [trailingComment_eq]
  simp only [List.mem_cons, not_or]
  exact ⟨by decide, by decide, by decide, by decide, htext⟩

theorem takeWhile_line {w : Text} (hw : lineFeed ∉ w) (hr : EndsLine r) : (w ++ r).takeWhile (· != lineFeed) = w := by
  refine takeWhile_append_stop (fun c hc => ?_) fun c hc => ?_
  · exact bne_iff_ne.2 fun h => hw (h ▸ hc)
  · simp [hr c hc]

theorem takeWhile_line_of_mem {w : Text} (hw : lineFeed ∈ w) (x : Text) :
    (w ++ x).takeWhile (· != lineFeed) = w.takeWhile (· != lineFeed) := by
  rw [List.takeWhile_append, if_neg]
  intro hlength
  rw [← (List.takeWhile_prefix _).eq_of_length hlength] at hw
  exact lineFeed_not_mem_takeWhile w hw

/-- A comment that has ended is as before, and one that has not takes up what is
added to its line. -/
theorem pieceAt_comment_append (h : pieceAt before b (t ++ r) = (.comment, n)) (hr : EndsLine r)
    (htext : lineFeed ∉ text) :
    pieceAt before b (t ++ (trailingComment text ++ r)) = (.comment, n) ∨
      n = t.length ∧ lineFeed ∉ t ∧
        pieceAt before b (t ++ (trailingComment text ++ r)) = (.comment, t.length + (trailingComment text).length) := by
  obtain ⟨u, rfl, ht, hd, rfl⟩ := pieceAt_comment h
  obtain ⟨v, rfl⟩ : ∃ v, t = byte '-' :: v := by
    cases t with
    | cons c v => exact ⟨v, by rw [(List.cons.inj ht).1]⟩
    | nil => rcases hr.cases with rfl | ⟨rest, rfl⟩ <;> cases ht
  obtain ⟨-, rfl⟩ := List.cons.inj ht
  have hd' : isDecrement before (v ++ (trailingComment text ++ r)) = false := by
    rw [isDecrement_closed (closes_trailingComment text r), ← isDecrement_closed hr.closes]
    exact hd
  rw [List.cons_append, pieceAt_minus, hd', ← List.cons_append]
  simp only [Bool.false_eq_true, if_false]
  by_cases hline : lineFeed ∈ byte '-' :: v
  · rw [takeWhile_line_of_mem hline, takeWhile_line_of_mem hline]
    exact .inl rfl
  · refine .inr ⟨?_, hline, ?_⟩
    · rw [takeWhile_line hline hr]
    · rw [← List.append_assoc, takeWhile_line ?_ hr, List.length_append]
      simp only [List.mem_append, not_or]
      exact ⟨hline, lineFeed_not_mem_trailingComment htext⟩

/-- What follows a line feed does not depend on what stands before it. -/
theorem segmentsFrom_endsLine (hr : EndsLine r) (before : Before) (pos line : Nat) :
    segmentsFrom before pos line r = segmentsFrom {} pos line r := by
  rcases hr.cases with rfl | ⟨rest, rfl⟩
  · rw [segmentsFrom, segmentsFrom]
  · rw [segmentsFrom_cons (pieceAt_lineFeed before rest), segmentsFrom_cons (pieceAt_lineFeed {} rest)]
    rfl

/-- The segments of `u ++ r` and of `u ++ inserted ++ r` give the same tokens up
to `r` and go on with the segments of `r`, in the second text farther on. -/
def SameUntil (inserted r : Text) (before : Before) (pos line : Nat) (u : Text) : Prop :=
  ∃ parts parts' line',
    segmentsFrom before pos line (u ++ r) = parts ++ segmentsFrom {} (pos + u.length) line' r ∧
    segmentsFrom before pos line (u ++ (inserted ++ r)) =
      parts' ++ segmentsFrom {} (pos + u.length + inserted.length) line' r ∧
    parts'.filterMap Segment.token? = parts.filterMap Segment.token? ∧
    parts'.filterMap Segment.diagnostic? = [] ∧ ∀ s ∈ parts, s.pos < pos + u.length

/-- The comment is a blank and a comment, since no name touches its signs and no
letter follows them. -/
theorem sameUntil_nil (htext : lineFeed ∉ text) (hr : EndsLine r) :
    SameUntil (trailingComment text) r before pos line [] := by
  have hblank : pieceAt before 32 (byte '-' :: (byte '-' :: 32 :: text ++ r)) = (.blank, 0) := rfl
  have hsigns : isDecrement (before.after .blank) (32 :: (text ++ r)) = false := by
    obtain ⟨kind, touching⟩ := before
    cases kind with
    | none => rfl
    | some kind => simp [isDecrement, Before.after, isLetter]
  have hbody : lineFeed ∉ byte '-' :: 32 :: text := fun h =>
    lineFeed_not_mem_trailingComment htext (List.mem_cons_of_mem _ (List.mem_cons_of_mem _ h))
  have hcomment : pieceAt (before.after .blank) (byte '-') (byte '-' :: 32 :: text ++ r) =
      (.comment, (byte '-' :: 32 :: text).length) := by
    rw [List.cons_append, pieceAt_minus, List.cons_append, hsigns, ← List.cons_append, ← List.cons_append,
      takeWhile_line hbody hr]
    rfl
  have hlines : lineFeeds (byte '-' :: byte '-' :: 32 :: text) = 0 :=
    lineFeeds_eq_zero fun h => lineFeed_not_mem_trailingComment htext (List.mem_cons_of_mem _ h)
  refine ⟨[], [⟨.blank, [32], pos, line⟩, ⟨.comment, byte '-' :: byte '-' :: 32 :: text, pos + 1, line⟩], line,
    segmentsFrom_endsLine hr before pos line, ?_, rfl, rfl, List.forall_mem_nil _⟩
  have hpos : pos + 0 + (trailingComment text).length = pos + 1 + (byte '-' :: byte '-' :: 32 :: text).length := by
    simp only [trailingComment_eq, List.length_cons]
    omega
  change segmentsFrom before pos line (32 :: byte '-' :: (byte '-' :: 32 :: text ++ r)) = _
  rw [segmentsFrom_cons hblank, List.drop_zero, segmentsFrom_cons hcomment, List.take_left, List.drop_left, hlines,
    segmentsFrom_endsLine hr, List.length_nil, hpos]
  rfl

/-- A segment that is the same in both texts. -/
theorem SameUntil.cons {inserted : Text} (h : pieceAt before b (t ++ r) = (piece, n))
    (h' : pieceAt before b (t ++ (inserted ++ r)) = (piece, n)) (hn : n ≤ t.length) (hpiece : ∀ f, piece ≠ .fault f)
    (hrest : SameUntil inserted r (before.after piece) (pos + (n + 1)) (line + lineFeeds (b :: t.take n)) (t.drop n)) :
    SameUntil inserted r before pos line (b :: t) := by
  obtain ⟨parts, parts', line', hparts, hparts', htokens, hquiet, hbefore⟩ := hrest
  have hpos : pos + (n + 1) + (t.drop n).length = pos + (b :: t).length := by
    simp only [List.length_drop, List.length_cons]
    omega
  rw [hpos] at hparts hparts' hbefore
  let first : Segment := ⟨piece, b :: t.take n, pos, line⟩
  have hreport : first.diagnostic? = none := by
    cases piece with
    | fault f => exact absurd rfl (hpiece f)
    | _ => rfl
  refine ⟨first :: parts, first :: parts', line', ?_, ?_, ?_, ?_, ?_⟩
  · rw [segmentsFrom_cons_append h hn, hparts]
    rfl
  · rw [segmentsFrom_cons_append h' hn, hparts']
    rfl
  · rw [List.filterMap_cons, List.filterMap_cons, htokens]
  · rw [List.filterMap_cons_none hreport, hquiet]
  · refine List.forall_mem_cons.2 ⟨?_, hbefore⟩
    change pos < pos + (b :: t).length
    simp

/-- A comment that goes on to the end of the line takes up the other one. -/
theorem sameUntil_comment {inserted : Text} (h : pieceAt before b (t ++ r) = (.comment, t.length))
    (h' : pieceAt before b (t ++ (inserted ++ r)) = (.comment, t.length + inserted.length)) (hr : EndsLine r)
    (hline : lineFeed ∉ b :: t) (hinserted : lineFeed ∉ inserted) : SameUntil inserted r before pos line (b :: t) := by
  refine ⟨[⟨.comment, b :: t, pos, line⟩], [⟨.comment, b :: (t ++ inserted), pos, line⟩], line, ?_, ?_, rfl, rfl, ?_⟩
  · rw [List.cons_append, segmentsFrom_cons h, List.take_left, List.drop_left, lineFeeds_eq_zero hline,
      segmentsFrom_endsLine hr]
    rfl
  · have hline' : lineFeed ∉ b :: (t ++ inserted) := by
      rw [← List.cons_append, List.mem_append, not_or]
      exact ⟨hline, hinserted⟩
    have hpos : pos + (b :: t).length + inserted.length = pos + (b :: (t ++ inserted)).length := by
      simp only [List.length_cons, List.length_append]
      omega
    rw [List.cons_append, segmentsFrom_cons h', ← List.append_assoc, ← List.length_append, List.take_left,
      List.drop_left, lineFeeds_eq_zero hline', segmentsFrom_endsLine hr, hpos]
    rfl
  · intro s hs
    obtain rfl := List.mem_singleton.1 hs
    change pos < pos + (b :: t).length
    simp

/-- The text ends here or a segment starts here. -/
def CutsAt (before : Before) (pos line : Nat) (u r : Text) : Prop :=
  r = [] ∨ ∃ s ∈ segmentsFrom before pos line (u ++ r), s.pos = pos + u.length

/-- The first segment does not reach past a place where one starts. -/
theorem CutsAt.tail (h : CutsAt before pos line (b :: t) r) (hfound : pieceAt before b (t ++ r) = (piece, n)) :
    n ≤ t.length ∧ CutsAt (before.after piece) (pos + (n + 1)) (line + lineFeeds (b :: t.take n)) (t.drop n) r := by
  have hsize : n ≤ (t ++ r).length := by
    have hwithin := (within_pieceAt before b (t ++ r)).size_le
    rwa [hfound] at hwithin
  have hlength : (b :: (t ++ r).take n).length = n + 1 := by
    rw [List.length_cons, List.length_take, Nat.min_eq_left hsize]
  rcases h with rfl | ⟨s, hs, hpos⟩
  · exact ⟨by simpa using hsize, .inl rfl⟩
  · rw [List.cons_append, segmentsFrom_cons hfound, hlength] at hs
    rw [List.length_cons] at hpos
    rcases List.mem_cons.1 hs with rfl | hs
    · exact absurd hpos (by simp)
    · have hle := ((tiles_segmentsFrom _ _ _ _).slice hs).1
      have hn : n ≤ t.length := by omega
      rw [List.take_append_of_le_length hn, List.drop_append_of_le_length hn] at hs
      refine ⟨hn, .inr ⟨s, hs, ?_⟩⟩
      rw [hpos, List.length_drop]
      omega

/-- By induction on the text up to the place of the comment, segment by segment. -/
theorem sameUntil_of_clean (htext : lineFeed ∉ text) (hr : EndsLine r) (size : Nat) : ∀ before pos line u,
    u.length ≤ size → (segmentsFrom before pos line (u ++ r)).filterMap Segment.diagnostic? = [] →
    CutsAt before pos line u r → SameUntil (trailingComment text) r before pos line u := by
  induction size with
  | zero =>
    intro before pos line u hu _ _
    obtain rfl := List.length_eq_zero_iff.1 (Nat.le_zero.1 hu)
    exact sameUntil_nil htext hr
  | succ size ih =>
    intro before pos line u hu hclean hcut
    cases u with
    | nil => exact sameUntil_nil htext hr
    | cons b t =>
      rcases hfound : pieceAt before b (t ++ r) with ⟨piece, n⟩
      obtain ⟨hn, hcut'⟩ := hcut.tail hfound
      rw [segmentsFrom_cons_append hfound hn] at hclean
      have hsize : (t.drop n).length ≤ size := by
        rw [List.length_drop]
        rw [List.length_cons] at hu
        omega
      cases piece with
      | fault f => cases hclean
      | token kind literal =>
        have h' := pieceAt_token_closed hfound hn hr.closes (closes_trailingComment text r)
        exact .cons hfound h' hn nofun (ih _ _ _ _ hsize hclean hcut')
      | blank =>
        obtain ⟨rfl, h'⟩ := pieceAt_blank hfound (t ++ (trailingComment text ++ r))
        exact .cons hfound h' hn nofun (ih _ _ _ _ hsize hclean hcut')
      | comment =>
        rcases pieceAt_comment_append hfound hr htext with h' | ⟨rfl, hline, h'⟩
        · exact .cons hfound h' hn nofun (ih _ _ _ _ hsize hclean hcut')
        · obtain ⟨-, rfl, -, -, -⟩ := pieceAt_comment hfound
          refine sameUntil_comment hfound h' hr ?_ (lineFeed_not_mem_trailingComment htext)
          exact List.not_mem_cons_of_ne_of_not_mem (by decide) hline

end Insertion

/-! ## Tokens farther on -/

/-- The segments of a text that stands farther on are farther on. -/
theorem segmentsFrom_farther (before : Before) (pos line : Nat) (t : Text) (distance : Nat) :
    segmentsFrom before (pos + distance) line t =
      (segmentsFrom before pos line t).map fun s => { s with pos := s.pos + distance } := by
  fun_induction segmentsFrom before pos line t with
  | case1 before pos line =>
    rw [segmentsFrom]
    rfl
  | case2 before pos line b t found segment ih =>
    have hfound : pieceAt before b t = (found.1, found.2) := rfl
    rw [segmentsFrom_cons hfound, ← nextLine_pieceAt pos line hfound, Nat.add_right_comm, List.map_cons, ← ih]

/-- Where an offset is after so many bytes were inserted at a place. -/
def afterInsertion (place size pos : Nat) : Nat := if pos < place then pos else pos + size

section Moved

variable {place size : Nat} {parts : List Segment}

theorem token?_moved (shift : Nat → Nat) (s : Segment) :
    s.token?.map (Token.moved shift) = Segment.token? { s with pos := shift s.pos } := by
  obtain ⟨piece, bytes, pos, line⟩ := s
  cases piece <;> rfl

/-- The tokens before the place stay where they are. -/
theorem map_moved_before (h : ∀ s ∈ parts, s.pos < place) :
    (parts.filterMap Segment.token?).map (Token.moved (afterInsertion place size)) =
      parts.filterMap Segment.token? := by
  rw [List.map_filterMap]
  refine List.filterMap_congr fun s hs => ?_
  rw [token?_moved, afterInsertion, if_pos (h s hs)]

/-- The tokens from the place on are farther on. -/
theorem map_moved_after (h : ∀ s ∈ parts, place ≤ s.pos) :
    (parts.filterMap Segment.token?).map (Token.moved (afterInsertion place size)) =
      (parts.map fun s => { s with pos := s.pos + size }).filterMap Segment.token? := by
  rw [List.map_filterMap, List.filterMap_map]
  refine List.filterMap_congr fun s hs => ?_
  rw [token?_moved, afterInsertion, if_neg (Nat.not_lt.2 (h s hs))]
  rfl

end Moved

/-! ## Newlines -/

theorem head?_of_newline {before : Before} {pos line : Nat} {t : Text} {s : Segment} {literal : Option Value}
    (hs : s ∈ segmentsFrom before pos line t) (hpiece : s.piece = .token .newline literal) :
    s.bytes.head? = some lineFeed := by
  fun_induction segmentsFrom before pos line t with
  | case1 before pos line => cases hs
  | case2 before pos line b t found segment ih =>
    rcases List.mem_cons.1 hs with rfl | hs
    · have hfound : pieceAt before b t = (.token .newline literal, found.2) := Prod.ext hpiece rfl
      rw [← lineFeed_of_newline hfound]
      rfl
    · exact ih hs

/-- At a newline token a segment starts, with the line feed of the source. -/
theorem endsLine_of_newline {source : Text} {token : Token} {place : Nat} (ht : token ∈ (scan source).tokens)
    (hkind : token.kind = .newline) (hpos : token.pos = some place) :
    EndsLine (source.drop place) ∧ place ≤ source.length ∧ ∃ s ∈ segments source, s.pos = place := by
  rcases List.mem_append.1 ht with ht | ht
  · obtain ⟨s, hs, htoken⟩ := List.mem_filterMap.1 ht
    obtain ⟨rfl, hhead⟩ : s.pos = place ∧ s.bytes.head? = some lineFeed := by
      unfold Segment.token? at htoken
      split at htoken
      · next kind literal hpiece =>
        obtain rfl := Option.some.inj htoken
        obtain rfl : kind = .newline := hkind
        exact ⟨Option.some.inj hpos, head?_of_newline hs hpiece⟩
      · cases htoken
    have hslice := ((tiles_segmentsFrom {} 0 1 source).slice hs).2
    rw [bytes_segmentsFrom, Nat.sub_zero] at hslice
    have hfirst : (source.drop s.pos).head? = some lineFeed := by
      rw [← hslice, List.head?_take] at hhead
      split at hhead
      · cases hhead
      · exact hhead
    refine ⟨fun c hc => ?_, ?_, s, hs, rfl⟩
    · rw [hfirst] at hc
      exact (Option.some.inj hc).symm
    · refine Nat.le_of_lt (Nat.lt_of_not_le fun hle => ?_)
      rw [List.drop_eq_nil_of_le hle] at hfirst
      cases hfirst
  · obtain rfl := List.mem_singleton.1 ht
    cases hkind

end Scan

open Scan

/-! ## Programs -/

/-- Where a comment may be added: the end of the source, or a newline token. -/
def EndOfLine (source : Text) (place : Nat) : Prop :=
  place = source.length ∨ ∃ t ∈ (scan source).tokens, t.kind = .newline ∧ t.pos = some place

theorem EndOfLine.cut {source : Text} {place : Nat} (h : EndOfLine source place) :
    place ≤ source.length ∧ EndsLine (source.drop place) ∧
      CutsAt {} 0 1 (source.take place) (source.drop place) := by
  rcases h with rfl | ⟨t, ht, hkind, hpos⟩
  · rw [List.drop_length]
    refine ⟨Nat.le_refl _, ?_, .inl rfl⟩
    intro c hc
    cases hc
  · obtain ⟨hends, hle, s, hs, rfl⟩ := endsLine_of_newline ht hkind hpos
    refine ⟨hle, hends, .inr ⟨s, ?_, ?_⟩⟩
    · rwa [List.take_append_drop]
    · rw [List.length_take, Nat.min_eq_left hle, Nat.zero_add]

/-- With a comment at the end of a line the source has the same tokens, on the
same lines, and no reports. -/
theorem scan_insert {source text : Text} {place : Nat} (hclean : (scan source).diagnostics = [])
    (htext : lineFeed ∉ text) (hplace : EndOfLine source place) :
    let inserted := trailingComment text
    let commented := source.take place ++ (inserted ++ source.drop place)
    (scan commented).diagnostics = [] ∧
      (scan commented).tokens = (scan source).tokens.map (Token.moved (afterInsertion place inserted.length)) ∧
      (scan commented).lastLine = (scan source).lastLine := by
  intro inserted commented
  obtain ⟨hle, hends, hcut⟩ := hplace.cut
  have hsource : source.take place ++ source.drop place = source := List.take_append_drop ..
  have hlength : (source.take place).length = place := by rw [List.length_take, Nat.min_eq_left hle]
  have hsame := sameUntil_of_clean htext hends (source.take place).length {} 0 1 _ (Nat.le_refl _)
    (by rw [hsource]; exact hclean) hcut
  obtain ⟨parts, parts', line', hparts, hparts', htokens, hquiet, hbefore⟩ := hsame
  rw [hlength, Nat.zero_add, hsource] at hparts
  rw [hlength, Nat.zero_add, segmentsFrom_farther] at hparts'
  rw [hlength, Nat.zero_add] at hbefore
  generalize hrest : segmentsFrom {} place line' (source.drop place) = rest at hparts hparts'
  have hafter : ∀ s ∈ rest, place ≤ s.pos := by
    intro s hs
    rw [← hrest] at hs
    exact ((tiles_segmentsFrom _ _ _ _).slice hs).1
  have hsegments : segments source = parts ++ rest := hparts
  have hsegments' : segments commented =
      parts' ++ rest.map fun s => { s with pos := s.pos + inserted.length } := hparts'
  have hlines : lineFeeds commented = lineFeeds source := by
    have hnone : lineFeeds inserted = 0 := lineFeeds_eq_zero (lineFeed_not_mem_trailingComment htext)
    rw [lineFeeds_append, lineFeeds_append, hnone, Nat.zero_add, ← lineFeeds_append, hsource]
  have hsize : commented.length = source.length + inserted.length := by
    rw [← congrArg List.length hsource]
    simp only [commented, List.length_append]
    omega
  have hlast : (scan commented).lastLine = (scan source).lastLine := by rw [lastLine_scan, lastLine_scan, hlines]
  refine ⟨?_, ?_, hlast⟩
  · have hrestQuiet : rest.filterMap Segment.diagnostic? = [] := by
      change (segments source).filterMap Segment.diagnostic? = [] at hclean
      rw [hsegments, List.filterMap_append] at hclean
      exact (List.append_eq_nil_iff.1 hclean).2
    change (segments commented).filterMap Segment.diagnostic? = []
    rw [hsegments', List.filterMap_append, hquiet, List.filterMap_map]
    exact hrestQuiet
  · have hend : afterInsertion place inserted.length source.length = source.length + inserted.length :=
      if_neg (Nat.not_lt.2 hle)
    rw [tokens_eq_concat, tokens_eq_concat, hlast, hsegments, hsegments', hsize, List.filterMap_append,
      List.filterMap_append, List.map_append, List.map_append, map_moved_before hbefore, map_moved_after hafter,
      htokens, List.map_singleton, Token.moved, Option.map_some, hend]

/-- A trailing comment never changes a program. At the end of a line of a source
without reports, a comment with any text on that line may be added behind a
space: there are no reports, the tokens have the same kinds, lexemes, literals
and lines and stand where they stood, or farther on behind the comment; the
program is read as the same statements and complaints; and every run gives the
same result. -/
theorem trailingComment_changes_nothing (source text : Text) (place : Nat) (hclean : (scan source).diagnostics = [])
    (htext : lineFeed ∉ text) (hplace : EndOfLine source place) :
    let inserted := trailingComment text
    let commented := source.take place ++ (inserted ++ source.drop place)
    let shift := afterInsertion place inserted.length
    (scan commented).diagnostics = [] ∧ (scan commented).tokens = (scan source).tokens.map (Token.moved shift) ∧
      (Program.ofSource commented).parsed = (Program.ofSource source).parsed.moved shift ∧
      ∀ watchers rounds replies,
        (Program.ofSource commented).run watchers rounds replies =
          (Program.ofSource source).run watchers rounds replies := by
  intro inserted commented shift
  obtain ⟨hquiet, htokens, hlines⟩ := scan_insert hclean htext hplace
  have hrelocated : Program.Relocated shift (Program.ofSource source) (Program.ofSource commented) :=
    Program.relocated_ofScanned htokens (hquiet.trans hclean.symm) hlines
  exact ⟨hquiet, htokens, hrelocated.parsed, hrelocated.run_eq⟩

/-- A comment behind a decrement, and one behind a word that could start a
phrase with the word of the comment. -/
theorem trailingComment_changes_nothing_word :
    let source : Text := "x--\ny = 1 -\nKUNG"
    (scan source).diagnostics = [] ∧ lineFeed ∉ ("PA" : Text) ∧ EndOfLine source 3 ∧ EndOfLine source 16 ∧
      (scan "x-- -- PA\ny = 1 -\nKUNG").tokens = (scan source).tokens.map (Token.moved (afterInsertion 3 6)) ∧
      (scan "x--\ny = 1 -\nKUNG -- PA").tokens = (scan source).tokens.map (Token.moved (afterInsertion 16 6)) := by
  intro source
  have hclean : (scan source).diagnostics = [] := by decide +kernel
  have htext : lineFeed ∉ ("PA" : Text) := by decide
  have hline : EndOfLine source 3 :=
    .inr ⟨{ kind := .newline, lexeme := "\n", line := 1, pos := some 3 }, by decide +kernel, rfl, rfl⟩
  have hend : EndOfLine source 16 := .inl rfl
  obtain ⟨-, hfirst, -⟩ := trailingComment_changes_nothing source "PA" 3 hclean htext hline
  obtain ⟨-, hlast, -⟩ := trailingComment_changes_nothing source "PA" 16 hclean htext hend
  exact ⟨hclean, htext, hline, hend, hfirst, hlast⟩

end BisayaPlus
