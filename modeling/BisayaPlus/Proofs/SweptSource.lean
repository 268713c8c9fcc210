import BisayaPlus.Proofs.Sweep
/-!
# Sweeping over a source

The sweep over a source is not lost. Each segment takes it forward to the place
where the scanner ends that segment, with the same token or report, and it ends
with the tokens, the reports and the last line that scanning gives.
-/

set_option autoImplicit false

namespace BisayaPlus.Sweep

open Text Scan

/-! ## Segments -/

/-- The state behind a segment that starts at the mark. -/
def State.behind (s : State) (part : Segment) : State where
  start := s.start
  current := s.start + part.bytes.length
  line := part.nextLine
  tokens := s.tokens ++ part.token?.toList
  reports := s.reports ++ part.diagnostic?.toList

/-- The sweep takes a segment as it was found from its first byte on. -/
def Takes (x : Sweep PUnit) (source : Text) (s : State) (b : UInt8) (t : Text) (found : Piece × Nat) : Prop :=
  x.run source s = some (⟨⟩, s.behind ⟨found.1, b :: t.take found.2, s.start, s.line⟩)

section Segments

variable {source bytes t rest : Text} {s : State} {b : UInt8} {budget : Nat}

theorem run_emit_behind {kind : Kind} {literal : Option Value} (h : Stands source s.start s.current bytes rest)
    (hstring : kind ≠ .string) (hnewline : kind ≠ .newline) :
    (emit kind literal).run source s =
      some (⟨⟩, s.behind ⟨.token kind literal, bytes, s.start, s.line⟩) := by
  have hend : Segment.endLine ⟨.token kind literal, bytes, s.start, s.line⟩ = s.line := by
    rw [Segment.endLine]
    split
    · next heq => exact absurd (Piece.token.inj heq).1 hstring
    · next heq => cases heq
    · rfl
  have hnext : Segment.nextLine ⟨.token kind literal, bytes, s.start, s.line⟩ = s.line := by
    rw [Segment.nextLine_of_ne (fun _ heq => hnewline (Piece.token.inj heq).1), hend]
  rw [run_emit h]
  simp [State.behind, Segment.token?, Segment.diagnostic?, hend, hnext, ← h.current_eq]

theorem run_refuse_behind {fault : ScanFault} (h : Stands source s.start s.current bytes rest)
    (hfault : fault ≠ .unterminatedString) :
    (refuse fault).run source s = some (⟨⟩, s.behind ⟨.fault fault, bytes, s.start, s.line⟩) := by
  have hend : Segment.endLine ⟨.fault fault, bytes, s.start, s.line⟩ = s.line := by
    rw [Segment.endLine]
    split
    · next heq => cases heq
    · next heq => exact absurd (Piece.fault.inj heq) hfault
    · rfl
  have hnext : Segment.nextLine ⟨.fault fault, bytes, s.start, s.line⟩ = s.line := by
    rw [Segment.nextLine_of_ne (fun _ heq => by cases heq), hend]
  rw [run_refuse h]
  simp [State.behind, Segment.token?, Segment.diagnostic?, hend, hnext, ← h.current_eq]

/-! ### Texts, characters and escapes -/

theorem run_passCounting (h : Stands source s.start s.current bytes (b :: rest)) :
    passCounting.run source s =
      some (⟨⟩, { s with current := s.current + 1, line := s.line + lineFeeds [b] }) := by
  rw [passCounting, run_bind_of (tests_ahead (by decide) s bytes _ h)]
  by_cases hb : b = lineFeed
  · subst hb
    exact (run_bind_of rfl).trans (run_pass (s := { s with line := s.line + 1 }) h)
  · have hzero : lineFeeds [b] = 0 := lineFeeds_eq_zero (by simpa using Ne.symm hb)
    rw [if_neg (by simpa using hb), run_pass h, hzero]
    rfl

/-- Each line feed of the text is counted as it is passed. -/
theorem run_string_body {body : Text} (h : Stands source s.start s.current bytes (body ++ rest))
    (hbody : byte '"' ∉ body) (hrest : ∀ c ∈ rest.head?, c = byte '"') (hbudget : body.length < budget) :
    (goRound (inside (· != byte '"')) passCounting budget).run source s =
      some (⟨⟩, { s with current := s.current + body.length, line := s.line + lineFeeds body }) := by
  rw [run_goRound tests_inside (fun s bytes b rest h => run_passCounting h) (fun s b => ⟨rfl, rfl⟩) h (fun c hc => ?_)
    (fun c hc => ?_) hbudget]
  · have hfold (t : Text) (s : State) :
        t.foldl (fun s b => { s with current := s.current + 1, line := s.line + lineFeeds [b] }) s =
          { s with current := s.current + t.length, line := s.line + lineFeeds t } := by
      induction t generalizing s with
      | nil => rfl
      | cons b t ih =>
        have hsplit : lineFeeds (b :: t) = lineFeeds [b] + lineFeeds t := lineFeeds_append [b] t
        rw [List.foldl_cons, ih, hsplit, List.length_cons]
        simp only [Nat.add_assoc, Nat.add_comm 1]
    rw [hfold]
  · exact bne_iff_ne.2 fun heq => hbody (heq ▸ hc)
  · simp [hrest c hc]

theorem takes_string (h : Stands source s.start s.current [byte '"'] t) (hbudget : t.length < budget) :
    Takes (string budget) source s (byte '"') t (stringPiece t) := by
  have hcurrent : s.current = s.start + 1 := h.current_eq
  have hquotes : lineFeeds [byte '"'] = 0 := by decide
  obtain ⟨body, hquote, ⟨u, rfl, hfound⟩ | ⟨rfl, hfound⟩⟩ := stringPiece_cases t
  · have hsize : body.length < budget := by
      rw [List.length_append] at hbudget
      omega
    have hbody := h.move
    have hfeeds : lineFeeds (byte '"' :: (body ++ [byte '"'])) = lineFeeds body := by
      rw [← List.singleton_append, lineFeeds_append, lineFeeds_append, hquotes, Nat.zero_add, Nat.add_zero]
    rw [hfound, Takes, string, run_bind_of (run_string_body h hquote (by simp) hsize), run_bind_of (run_atEnd hbody),
      if_neg (by simp), run_bind_of (run_pass hbody), run_bind_of (run_content hbody.next), run_emit hbody.next]
    simp only [take_succ_append]
    simp [State.behind, Segment.token?, Segment.diagnostic?, Segment.nextLine, Segment.endLine, hcurrent, hfeeds]
    omega
  · have hend : Stands source s.start s.current [byte '"'] (t ++ []) := by rwa [List.append_nil]
    have hfeeds : lineFeeds (byte '"' :: t) = lineFeeds t := by
      rw [← List.singleton_append, lineFeeds_append, hquotes, Nat.zero_add]
    rw [hfound, Takes, string, run_bind_of (run_string_body hend hquote (by simp) hbudget),
      run_bind_of (run_atEnd hend.move), if_pos (by simp), run_refuse hend.move]
    simp [State.behind, Segment.token?, Segment.diagnostic?, Segment.nextLine, Segment.endLine, hcurrent, hfeeds]
    omega

/-- A closing byte on the same line is passed. -/
theorem run_closing {body : Text} {q : UInt8} (hq : q ≠ lineFeed)
    (h : Stands source s.start s.current bytes (body ++ q :: rest)) (hbody : q ∉ body) (hline : lineFeed ∉ body)
    (hbudget : body.length < budget) :
    (closing budget q).run source s = some (true, { s with current := s.current + body.length + 1 }) := by
  have hskip := run_skip (p := fun b => b != q && b != lineFeed) tests_inside h (fun c hc => ?_) (by simp) hbudget
  · rw [closing, run_bind_of hskip, run_bind_of (run_atEnd h.move), if_neg (by simp),
      run_bind_of (tests_ahead (by decide) _ _ _ h.move), if_neg (by simpa using hq), run_bind_of (run_pass h.move)]
    rfl
  · simp [ne_of_mem_of_not_mem hc hbody, ne_of_mem_of_not_mem hc hline]

theorem run_closing_open {body : Text} {q : UInt8}
    (h : Stands source s.start s.current bytes (body ++ rest)) (hbody : q ∉ body) (hline : lineFeed ∉ body)
    (hrest : EndsLine rest) (hbudget : body.length < budget) :
    (closing budget q).run source s = some (false, { s with current := s.current + body.length }) := by
  have hskip := run_skip (p := fun b => b != q && b != lineFeed) tests_inside h (fun c hc => ?_) (fun c hc => ?_)
    hbudget
  · rw [closing, run_bind_of hskip, run_bind_of (run_atEnd h.move)]
    rcases hrest.cases with rfl | ⟨rest, rfl⟩
    · rfl
    · rw [if_neg (by simp), run_bind_of (tests_ahead (by decide) _ _ _ h.move)]
      rfl
  · simp [ne_of_mem_of_not_mem hc hbody, ne_of_mem_of_not_mem hc hline]
  · simp [hrest c hc]

theorem takes_char (h : Stands source s.start s.current [byte '\''] t) (hbudget : t.length < budget) :
    Takes (char budget) source s (byte '\'') t (charPiece t) := by
  obtain ⟨body, u, htake, rfl, hquote, hline, hu⟩ := exists_closing (byte '\'') t
  have hsize : body.length < budget := by
    rw [List.length_append] at hbudget
    omega
  unfold Takes charPiece char
  simp only [htake, List.drop_left]
  rcases hu with ⟨hend, hopen⟩ | ⟨v, rfl⟩
  · rw [run_bind_of (run_closing_open h hquote hline hend hsize), if_neg (by simp), if_neg (by simpa using hopen)]
    simp only [List.take_left]
    exact run_refuse_behind h.move (by decide)
  · rw [run_bind_of (run_closing (by decide) h hquote hline hsize), if_pos rfl, if_pos (by simp),
      run_bind_of (run_content h.enclosed)]
    cases single? body with
    | some c =>
      simp only [take_succ_append]
      exact run_emit_behind h.enclosed (by decide) (by decide)
    | none =>
      simp only [take_succ_append]
      exact run_refuse_behind h.enclosed (by decide)

theorem takes_escape (h : Stands source s.start s.current [byte '['] t) (hbudget : t.length < budget) :
    Takes (escape budget) source s (byte '[') t (escapePiece t) := by
  obtain ⟨body, u, htake, rfl, hbracket, hline, hu⟩ := exists_closing (byte ']') t
  have hsize : body.length < budget := by
    rw [List.length_append] at hbudget
    omega
  rcases hu with ⟨hend, hopen⟩ | ⟨v, rfl⟩
  · have hpiece : escapePiece (body ++ u) = (.fault .unterminatedEscape, body.length) := by
      unfold escapePiece
      simp only [htake, List.drop_left]
      split
      · exact absurd rfl hopen
      · rfl
    rw [Takes, hpiece, escape, run_bind_of (run_closing_open h hbracket hline hend hsize), if_neg (by simp)]
    simp only [List.take_left]
    exact run_refuse_behind h.move (by decide)
  · rw [Takes, escape, run_bind_of (run_closing (by decide) h hbracket hline hsize), if_pos rfl,
      run_bind_of (run_content h.enclosed)]
    rcases body with _ | ⟨c, _ | ⟨c', body⟩⟩
    · have haccept := run_accept (s := { s with current := s.current + 1 }) h.enclosed (byte ']')
      by_cases hdouble : v.head? = some (byte ']')
      · obtain ⟨w, rfl⟩ := List.head?_eq_some_iff.1 hdouble
        rw [if_pos hdouble] at haccept
        exact (run_bind_of haccept).trans (run_emit_behind h.enclosed.next (by decide) (by decide))
      · have hpiece : escapePiece ([] ++ byte ']' :: v) = (.token .escape (some (.pulong [])), 1) :=
          if_neg (by simpa using hdouble)
        rw [if_neg hdouble] at haccept
        rw [hpiece]
        exact (run_bind_of haccept).trans (run_emit_behind h.enclosed (by decide) (by decide))
    · have hpiece : escapePiece ([c] ++ byte ']' :: v) = (.token .escape (some (.pulong [escapeValue c])), 2) := by
        unfold escapePiece
        simp only [htake, List.drop_left]
        rfl
      rw [hpiece]
      exact run_emit_behind h.enclosed (by decide) (by decide)
    · have hpiece : escapePiece (c :: c' :: body ++ byte ']' :: v) =
          (.fault .invalidEscape, (c :: c' :: body).length + 1) := by
        unfold escapePiece
        simp only [htake, List.drop_left]
        rfl
      rw [hpiece]
      simp only [take_succ_append]
      exact run_refuse_behind h.enclosed (by decide)

/-! ### Numbers -/

theorem run_digits {digits : Text} (h : Stands source s.start s.current bytes (digits ++ rest))
    (hdigits : ∀ c ∈ digits, isDigit c = true) (hrest : ∀ c ∈ rest.head?, isDigit c = false)
    (hbudget : digits.length < budget) :
    (Sweep.digits budget).run source s = some (⟨⟩, { s with current := s.current + digits.length }) :=
  run_skip (tests_ahead (by decide)) h hdigits hrest hbudget

section Mantissa

variable {first v : Text}

/-- Behind the first digits, two bytes tell whether a fraction follows. -/
theorem run_fraction_eq (h : Stands source s.start s.current [b] (first ++ v))
    (hfirst : ∀ c ∈ first, isDigit c = true) (hv : ∀ c ∈ v.head?, isDigit c = false)
    (hbudget : first.length < budget) :
    (fraction budget).run source s =
      (if b != byte '.' && v[0]?.getD 0 == byte '.' && isDigit (v[1]?.getD 0) then do
        pass
        Sweep.digits budget
        pure true
      else pure (b == byte '.') : Sweep Bool).run source { s with current := s.current + first.length } := by
  rw [fraction, run_bind_of (run_first h), run_bind_of (run_digits h hfirst hv hbudget),
    run_bind_of (run_peek h.move 0), run_bind_of (run_peek h.move 1)]

theorem bne_point_of_isDigit (hb : isDigit b = true) : (b != byte '.') = true := by
  refine bne_iff_ne.2 fun heq => ?_
  rw [heq] at hb
  cases hb

/-- A number with a point and digits behind it. -/
theorem run_fraction_digits {second w : Text} (hb : isDigit b = true)
    (h : Stands source s.start s.current [b] (first ++ 46 :: (second ++ w))) (hfirst : ∀ c ∈ first, isDigit c = true)
    (hsecond : ∀ c ∈ second, isDigit c = true) (hne : second ≠ []) (hw : ∀ c ∈ w.head?, isDigit c = false)
    (hbudget : (first ++ 46 :: (second ++ w)).length < budget) :
    (fraction budget).run source s =
      some (true, { s with current := s.start + (first.length + second.length + 2) }) := by
  obtain ⟨d, second, rfl⟩ := List.exists_cons_of_ne_nil hne
  have hd : isDigit d = true := hsecond d List.mem_cons_self
  simp only [List.length_append, List.length_cons] at hbudget
  have hpoint : ∀ c ∈ (46 :: (d :: second ++ w)).head?, isDigit c = false := by
    intro c hc
    obtain rfl := Option.some.inj hc
    rfl
  have hdone := run_digits (s := { s with current := s.current + first.length + 1 }) h.move.next hsecond hw
    (by rw [List.length_cons]; omega : _ < budget)
  have hplace : s.current + first.length + 1 + (d :: second).length =
      s.start + (first.length + (d :: second).length + 2) := by
    rw [h.current_eq, List.length_singleton]
    omega
  rw [run_fraction_eq h hfirst hpoint (by omega), if_pos (by rw [bne_point_of_isDigit hb]; exact hd),
    run_bind_of (run_pass h.move), run_bind_of hdone, run_pure, hplace]

/-- A number without a fraction: there is no point, or no digit behind it. -/
theorem run_fraction_whole (hb : isDigit b = true) (h : Stands source s.start s.current [b] (first ++ v))
    (hfirst : ∀ c ∈ first, isDigit c = true) (hv : ∀ c ∈ v.head?, isDigit c = false)
    (hnone : ∀ r, v = 46 :: r → r.takeWhile isDigit = []) (hbudget : first.length < budget) :
    (fraction budget).run source s = some (false, { s with current := s.start + (first.length + 1) }) := by
  have hpoint := bne_point_of_isDigit hb
  have hstop : ¬(b != byte '.' && v[0]?.getD 0 == byte '.' && isDigit (v[1]?.getD 0)) = true := by
    simp only [Bool.and_eq_true, beq_iff_eq, not_and]
    rintro ⟨-, hpoint⟩ hdigit
    rcases v with _ | ⟨c, _ | ⟨d, r⟩⟩
    · cases hpoint
    · cases hdigit
    · obtain rfl : c = 46 := hpoint
      have hsome : (d :: r).takeWhile isDigit = d :: r.takeWhile isDigit := List.takeWhile_cons_of_pos hdigit
      cases hsome.symm.trans (hnone _ rfl)
  have hother : (b == byte '.') = false := by simpa using hpoint
  have hplace : s.current + first.length = s.start + (first.length + 1) := by
    rw [h.current_eq, List.length_singleton]
    omega
  rw [run_fraction_eq h hfirst hv hbudget, if_neg hstop, run_pure, hother, hplace]

end Mantissa

/-- The sweep ends behind the mantissa, and knows whether it has a fraction. -/
theorem run_fraction (hb : (isDigit b || (b == byte '.' && t.head?.any isDigit)) = true)
    (h : Stands source s.start s.current [b] t) (hbudget : t.length < budget) :
    (fraction budget).run source s =
      some ((mantissa (b :: t)).2, { s with current := s.start + (mantissa (b :: t)).1 }) := by
  obtain ⟨v, ht, hfirst, hv⟩ := exists_takeWhile isDigit t
  generalize t.takeWhile isDigit = first at ht hfirst
  subst ht
  have hsize : first.length < budget := by
    rw [List.length_append] at hbudget
    omega
  by_cases hdigit : isDigit b = true
  · have hwhole : ∀ c ∈ b :: first, isDigit c = true := List.forall_mem_cons.2 ⟨hdigit, hfirst⟩
    by_cases hfraction : ∃ r, v = 46 :: r ∧ r.takeWhile isDigit ≠ []
    · obtain ⟨r, rfl, hne⟩ := hfraction
      obtain ⟨w, hr, hmore, hw⟩ := exists_takeWhile isDigit r
      generalize r.takeWhile isDigit = second at hr hmore hne
      subst hr
      have hplace : first.length + second.length + 2 = (b :: first).length + 1 + second.length := by
        rw [List.length_cons]
        omega
      rw [run_fraction_digits hdigit h hfirst hmore hne hw hbudget, ← List.cons_append,
        mantissa_fraction hwhole hmore hne hw, hplace]
    · have hnone : ∀ r, v = 46 :: r → r.takeWhile isDigit = [] := fun r hr =>
        Classical.byContradiction fun hne => hfraction ⟨r, hr, hne⟩
      rw [run_fraction_whole hdigit h hfirst hv hnone hsize, ← List.cons_append, mantissa_whole hwhole hv hnone]
      rfl
  · -- a point with digits behind it
    simp only [Bool.not_eq_true] at hdigit
    rw [hdigit, Bool.false_or, Bool.and_eq_true, beq_iff_eq] at hb
    obtain ⟨rfl, hhead⟩ := hb
    have hne : first ≠ [] := by
      rintro rfl
      cases v with
      | nil => cases hhead
      | cons c v => cases (hv c rfl).symm.trans hhead
    have hmantissa : mantissa ([] ++ 46 :: (first ++ v)) = (0 + 1 + first.length, true) :=
      mantissa_fraction (List.forall_mem_nil _) hfirst hne hv
    have htext : byte '.' :: (first ++ v) = [] ++ 46 :: (first ++ v) := rfl
    rw [htext, hmantissa, run_fraction_eq h hfirst hv hsize, if_neg (by simp), run_pure, h.current_eq, Nat.zero_add,
      Nat.add_assoc]
    rfl

theorem run_numeral (h : Stands source s.start s.current bytes rest) (isReal : Bool) :
    (numeral isReal).run source s = some (⟨⟩, s.behind ⟨numeralPiece isReal bytes, bytes, s.start, s.line⟩) := by
  rw [numeral, run_bind_of (run_lexeme h)]
  unfold numeralPiece
  dsimp only
  cases (if isReal then (Numeral.real? bytes).map Value.tipik else (Numeral.int64? bytes).map Value.numero) with
  | some v => exact run_emit_behind h (by decide) (by decide)
  | none => exact run_refuse_behind h (by decide)

/-- The sign of an exponent is passed if there is one. -/
theorem run_passSign (h : Stands source s.start s.current bytes t) :
    (passIf fun b => b == byte '+' || b == byte '-').run source s =
      some (⟨⟩, { s with current := s.current + signSize t }) := by
  rw [passIf, run_bind_of (tests_ahead (by decide) s bytes t h), signSize]
  cases t with
  | nil => rfl
  | cons b t =>
    change (if (b == byte '+' || b == byte '-') = true then pass else pure ⟨⟩).run source s =
      some (⟨⟩, { s with current := s.current + if (b == byte '+' || b == byte '-') = true then 1 else 0 })
    split
    · exact run_pass h
    · rfl

section Exponent

variable {m u : Text} {isReal : Bool}

/-- Behind the mantissa an exponent goes on, or is at fault without digits. -/
theorem run_number_exponent {sign digits x : Text} {e : UInt8}
    (hfraction : (fraction budget).run source s = some (isReal, { s with current := s.start + m.length }))
    (h : Stands source s.start (s.start + m.length) m (e :: (sign ++ (digits ++ x))))
    (hm : mantissa (m ++ e :: (sign ++ (digits ++ x))) = (m.length, isReal)) (he : (lowerByte e == byte 'e') = true)
    (hsign : signSize (sign ++ (digits ++ x)) = sign.length) (hdigits : ∀ c ∈ digits, isDigit c = true)
    (hx : ∀ c ∈ x.head?, isDigit c = false) (hbudget : digits.length < budget) :
    let found := numberPiece (m ++ e :: (sign ++ (digits ++ x)))
    (number budget).run source s =
      some (⟨⟩, s.behind ⟨found.1, (m ++ e :: (sign ++ (digits ++ x))).take found.2, s.start, s.line⟩) := by
  have hletter : (e :: (sign ++ (digits ++ x))).head?.any (fun e => e == byte 'e' || e == byte 'E') = true := by
    simpa using exponent_letter he
  have hsigned := h.next.move
  have hall : Stands source s.start (s.start + m.length + 1 + sign.length + digits.length)
      (m ++ e :: (sign ++ digits)) x := by simpa using hsigned.move
  dsimp only
  rw [number, run_bind_of hfraction, numberPiece_exponent hm he hsign hdigits hx,
    (tests_ahead (by decide)).run_then h hletter, run_bind_of (run_pass h), run_bind_of (run_passSign h.next), hsign]
  dsimp only
  rw [take_exponent]
  cases digits with
  | nil =>
    have hnone : x.head?.any isDigit = false := by
      cases x with
      | nil => rfl
      | cons c x => exact hx c rfl
    rw [(tests_ahead (by decide)).run_else hsigned hnone]
    exact run_refuse_behind hall (by decide)
  | cons d digits =>
    have hfirst : (d :: digits ++ x).head?.any isDigit = true := hdigits d List.mem_cons_self
    rw [(tests_ahead (by decide)).run_then hsigned hfirst, run_bind_of (run_digits hsigned hdigits hx hbudget)]
    exact run_numeral hall true

theorem run_number_plain
    (hfraction : (fraction budget).run source s = some (isReal, { s with current := s.start + m.length }))
    (h : Stands source s.start (s.start + m.length) m u) (hm : mantissa (m ++ u) = (m.length, isReal))
    (hu : ∀ c ∈ u.head?, (lowerByte c == byte 'e') = false) :
    let found := numberPiece (m ++ u)
    (number budget).run source s = some (⟨⟩, s.behind ⟨found.1, (m ++ u).take found.2, s.start, s.line⟩) := by
  have hother : u.head?.any (fun e => e == byte 'e' || e == byte 'E') = false := by
    cases u with
    | nil => rfl
    | cons c u =>
      refine Bool.eq_false_iff.2 fun hletter => ?_
      obtain rfl | rfl : c = byte 'e' ∨ c = byte 'E' := by simpa using hletter
      · cases hu _ rfl
      · cases hu _ rfl
  dsimp only
  rw [number, run_bind_of hfraction, numberPiece_plain hm hu, (tests_ahead (by decide)).run_else h hother]
  dsimp only
  rw [List.take_left]
  exact run_numeral h isReal

end Exponent

theorem takes_number (hb : (isDigit b || (b == byte '.' && t.head?.any isDigit)) = true)
    (h : Stands source s.start s.current [b] t) (hbudget : t.length < budget) :
    Takes (number budget) source s b t ((numberPiece (b :: t)).1, (numberPiece (b :: t)).2 - 1) := by
  obtain ⟨hpos, -⟩ := numberPiece_pos hb
  have htake : b :: t.take ((numberPiece (b :: t)).2 - 1) = (b :: t).take (numberPiece (b :: t)).2 := by
    rw [← List.take_succ_cons, Nat.sub_add_cancel hpos]
  have hfraction := run_fraction hb h hbudget
  have htext := h.text
  have hlength : (b :: t).length ≤ budget := hbudget
  rw [Takes, htake]
  rw [List.singleton_append] at htext
  obtain ⟨m, u, heq, hm, -⟩ := exists_mantissa (b :: t)
  generalize (mantissa (b :: t)).2 = isReal at hm hfraction
  rw [hm] at hfraction
  rw [heq] at hm htext hlength ⊢
  have hstands : Stands source s.start (s.start + m.length) m u := ⟨htext, rfl, h.start_le⟩
  by_cases hexponent : ∃ e ∈ u.head?, (lowerByte e == byte 'e') = true
  · obtain ⟨e, hhead, he⟩ := hexponent
    obtain ⟨v, rfl⟩ : ∃ v, u = e :: v := List.head?_eq_some_iff.1 hhead
    obtain ⟨sign, w, rfl, hsign, -⟩ := exists_signSize v
    obtain ⟨x, hw, hdigits, hx⟩ := exists_takeWhile isDigit w
    generalize w.takeWhile isDigit = digits at hw hdigits
    subst hw
    have hsize : digits.length < budget := by
      simp only [List.length_append, List.length_cons] at hlength
      omega
    exact run_number_exponent hfraction hstands hm he hsign hdigits hx hsize
  · refine run_number_plain hfraction hstands hm fun c hc => ?_
    simpa using fun he => hexponent ⟨c, hc, by simpa using he⟩

/-! ### Words -/

theorem run_word {w : Text} (h : Stands source s.start s.current bytes (w ++ rest))
    (hw : ∀ c ∈ w, isWordByte c = true) (hrest : ∀ c ∈ rest.head?, isWordByte c = false)
    (hbudget : w.length < budget) :
    (word budget).run source s = some (⟨⟩, { s with current := s.current + w.length }) :=
  run_skip (tests_ahead (by decide)) h hw hrest hbudget

/-- A phrase is told by its first word, a space and a letter. -/
theorem phrase?_eq_none {word : Text} (hword : ∀ c ∈ word, isWordByte c = true)
    (h : ¬(phraseStarts.any (ofString · == word) && rest[0]?.getD 0 == 32 && isLetter (rest[1]?.getD 0)) = true) :
    phrase? word rest = none := by
  have htable : ∀ entry ∈ phrases, let t := ofString entry.1
      let first := t.takeWhile isWordByte
      phraseStarts.any (ofString · == first) = true ∧ (t.drop (first.length + 1)).head?.any isLetter = true := by
    decide
  cases hphrase : phrase? word rest with
  | none => rfl
  | some found =>
    obtain ⟨second, v, rfl, -, hspelled, -⟩ := phrase?_eq_some hphrase
    obtain ⟨spelling, hmem, hspelling⟩ := phrases_iff.2 hspelled
    obtain ⟨hfirst, hletter⟩ := htable _ hmem
    have htake : (word ++ 32 :: second).takeWhile isWordByte = word :=
      takeWhile_append_stop hword fun c hc => by
        obtain rfl := Option.some.inj hc
        rfl
    rw [hspelling, htake] at hfirst hletter
    rw [List.drop_length_add_append] at hletter
    refine absurd ?_ h
    cases second with
    | nil => cases hletter
    | cons c second =>
      rw [hfirst]
      exact hletter

/-- The cursor ends behind a phrase, or where it was. -/
theorem run_secondWord {text : Text} (h : Stands source s.start s.current text rest)
    (htext : ∀ c ∈ text, isWordByte c = true) (hbudget : rest.length ≤ budget) :
    (secondWord budget text).run source s =
      some ((phrase? text rest).map (·.1), { s with current := s.current + (phrase? text rest).elim 0 (·.2) }) := by
  rw [secondWord, run_bind_of (run_peek h 0), run_bind_of (run_peek h 1)]
  by_cases hstarts : (phraseStarts.any (ofString · == text) && rest[0]?.getD 0 == 32 &&
      isLetter (rest[1]?.getD 0)) = true
  · rw [if_pos hstarts, run_state]
    simp only [Bool.and_eq_true, beq_iff_eq] at hstarts
    obtain ⟨⟨-, hspace⟩, -⟩ := hstarts
    obtain ⟨rest, rfl⟩ : ∃ r, rest = 32 :: r := by
      cases rest with
      | nil => cases hspace
      | cons c r => exact ⟨r, congrArg (· :: r) hspace⟩
    obtain ⟨v, hsplit, hsecond, hv⟩ := exists_takeWhile isWordByte rest
    rw [phrase?_space]
    generalize rest.takeWhile isWordByte = second at hsplit hsecond
    subst hsplit
    have hsize : second.length < budget := by
      simp only [List.length_append, List.length_cons] at hbudget
      omega
    have hboth : Stands source s.start (s.current + 1 + second.length) (text ++ 32 :: second) v := by
      simpa using h.next.move
    rw [run_bind_of (run_pass h), run_bind_of (run_word h.next hsecond hv hsize), run_bind_of (run_lexeme hboth)]
    cases spelled? phrases (text ++ 32 :: second) with
    | some kind =>
      have hplace : s.current + 1 + second.length = s.current + (second.length + 1) := by omega
      rw [run_pure, hplace]
      rfl
    | none =>
      have hle : s.current ≤ source.length := by
        have hlength := h.length_eq
        omega
      exact run_bind_of (run_goTo hle _)
  · rw [if_neg hstarts, run_pure, phrase?_eq_none htext hstarts]
    rfl

theorem takes_identifier (hb : isLetter b = true) (h : Stands source s.start s.current [b] t)
    (hbudget : t.length < budget) : Takes (identifier budget) source s b t (wordPiece b t) := by
  have htable : ∀ kind ∈ wordKinds, kind ≠ .string ∧ kind ≠ .newline := by decide
  have hkind (kind : Kind) (n : Nat) (hpiece : wordPiece b t = (.token kind none, n)) :
      kind ≠ .string ∧ kind ≠ .newline := htable kind (wordPiece_kind (congrArg Prod.fst hpiece))
  have hword : isWordByte b = true := by simp [isWordByte, hb]
  obtain ⟨u, ht, htail, hu⟩ := exists_takeWhile isWordByte t
  unfold wordPiece at hkind ⊢
  generalize t.takeWhile isWordByte = tail at ht htail hkind
  subst ht
  dsimp only at hkind ⊢
  rw [List.drop_left] at hkind ⊢
  have hsizes : tail.length < budget ∧ u.length ≤ budget := by
    rw [List.length_append] at hbudget
    omega
  have hall : Stands source s.start (s.current + tail.length) (b :: tail) u := h.move
  have hsecond := run_secondWord (s := { s with current := s.current + tail.length }) hall
    (List.forall_mem_cons.2 ⟨hword, htail⟩) hsizes.2
  rw [Takes, identifier, run_bind_of (run_word h htail hu hsizes.1), run_bind_of (run_lexeme hall),
    run_bind_of hsecond]
  cases hphrase : phrase? (b :: tail) u with
  | some found =>
    obtain ⟨kind, size⟩ := found
    obtain ⟨second, v, rfl, rfl, -⟩ := phrase?_eq_some hphrase
    have htake : (tail ++ 32 :: (second ++ v)).take (tail.length + (second.length + 1)) = tail ++ 32 :: second := by
      rw [List.take_length_add_append, List.take_succ_cons, List.take_left]
    rw [hphrase] at hkind
    obtain ⟨hstring, hnewline⟩ := hkind kind _ rfl
    dsimp only
    rw [htake]
    exact run_emit_behind (Stands.move (t := 32 :: second) hall) hstring hnewline
  | none =>
    rw [hphrase] at hkind
    obtain ⟨hstring, hnewline⟩ := hkind _ _ rfl
    dsimp only
    rw [List.take_left]
    exact run_emit_behind hall hstring hnewline

/-! ### Signs -/

/-- The sign that a first byte makes with what follows it. -/
def signFound (kind : Kind) (longer : List (Char × Kind)) (t : Text) : Kind × Nat :=
  match longer.find? fun entry => t.head? == some (byte entry.1) with
  | some entry => (entry.2, 1)
  | none => (kind, 0)

theorem signFound_none {kind : Kind} {longer : List (Char × Kind)}
    (h : ∀ c ∈ t.head?, ∀ entry ∈ longer, byte entry.1 ≠ c) : signFound kind longer t = (kind, 0) := by
  have hnone : (longer.find? fun entry => t.head? == some (byte entry.1)) = none :=
    List.find?_eq_none.2 fun entry hentry hhead => h _ (beq_iff_eq.1 hhead) entry hentry rfl
  rw [signFound, hnone]

theorem takes_sign {kind : Kind} {longer : List (Char × Kind)} (h : Stands source s.start s.current [b] t)
    (hkind : kind ≠ .string ∧ kind ≠ .newline) (hlonger : ∀ entry ∈ longer, entry.2 ≠ .string ∧ entry.2 ≠ .newline) :
    Takes (sign kind longer) source s b t (.token (signFound kind longer t).1 none, (signFound kind longer t).2) := by
  induction longer with
  | nil => exact run_emit_behind h hkind.1 hkind.2
  | cons entry more ih =>
    obtain ⟨hentry, hmore⟩ := List.forall_mem_cons.1 hlonger
    have haccept := run_accept h (byte entry.1)
    by_cases hnext : t.head? = some (byte entry.1)
    · have hfound : signFound kind (entry :: more) t = (entry.2, 1) := by simp [signFound, hnext]
      obtain ⟨u, rfl⟩ := List.head?_eq_some_iff.1 hnext
      rw [if_pos hnext] at haccept
      rw [Takes, hfound]
      exact (run_bind_of haccept).trans (run_emit_behind h.next hentry.1 hentry.2)
    · have hfound : signFound kind (entry :: more) t = signFound kind more t := by simp [signFound, hnext]
      rw [if_neg hnext] at haccept
      rw [Takes, hfound]
      exact (run_bind_of haccept).trans (ih hmore)

/-- No sign is longer than two bytes. -/
theorem sign?_pair (b c : UInt8) (u : Text) : sign? (b :: c :: u) = sign? [b, c] := by
  have htable : ∀ entry ∈ signs, (ofString entry.1).length ≤ 2 := by decide
  unfold sign?
  rw [List.find?_congr fun entry hentry => ?_]
  have hshort := htable entry hentry
  generalize ofString entry.1 = spelling at hshort
  rcases spelling with _ | ⟨x, _ | ⟨y, _ | ⟨z, spelling⟩⟩⟩
  · rfl
  · simp [List.isPrefixOf]
  · simp [List.isPrefixOf]
  · simp only [List.length_cons] at hshort
    omega

/-- The bytes with which a sign can go on. -/
def signEnds : List UInt8 := [byte '+', byte '=', byte '>']

theorem sign?_other {c : UInt8} (hc : c ∉ signEnds) (b : UInt8) : sign? [b, c] = sign? [b] := by
  have htable : ∀ entry ∈ signs, (ofString entry.1).tail ⊆ signEnds := by decide
  unfold sign?
  rw [List.find?_congr fun entry hentry => ?_]
  refine isPrefixOf_append (q := [b]) (List.cons_ne_nil _ _) fun x hx hmem => ?_
  obtain rfl := Option.some.inj hx
  exact hc (htable entry hentry hmem)

theorem sign?_eq_signFound {entry : Char × List (Char × Kind) × Kind} (hentry : entry ∈ signTable) (t : Text) :
    sign? (byte entry.1 :: t) =
      some ((signFound entry.2.2 entry.2.1 t).1, (signFound entry.2.2 entry.2.1 t).2 + 1) := by
  have hsingle : ∀ entry ∈ signTable, sign? [byte entry.1] = some (entry.2.2, 1) := by decide
  have hpair : ∀ entry ∈ signTable, ∀ c ∈ signEnds, sign? [byte entry.1, c] =
      some ((signFound entry.2.2 entry.2.1 [c]).1, (signFound entry.2.2 entry.2.1 [c]).2 + 1) := by decide +kernel
  have hends : ∀ entry ∈ signTable, ∀ longer ∈ entry.2.1, byte longer.1 ∈ signEnds := by decide
  cases t with
  | nil => rw [hsingle entry hentry, signFound_none fun c hc => by cases hc]
  | cons c u =>
    rw [sign?_pair]
    by_cases hc : c ∈ signEnds
    · exact hpair entry hentry c hc
    · rw [sign?_other hc, hsingle entry hentry, signFound_none]
      intro c' hc' longer hlonger heq
      obtain rfl := Option.some.inj hc'
      exact hc (heq ▸ hends entry hentry longer hlonger)

/-! ### Any segment -/

/-- What stands before a segment, told by the last token. -/
def State.before (s : State) : Before where
  kind := s.tokens.getLast?.map (·.kind)
  touching := s.tokens.getLast?.any fun last => last.pos.map (· + last.lexeme.length) == some s.start

theorem run_isDecrement (h : Stands source s.start s.current bytes (b :: t)) :
    isDecrement.run source s = some (Scan.isDecrement s.before t, s) := by
  rw [isDecrement, run_state, run_bind_of (run_peek h 1)]
  have hletter : isLetter ((b :: t)[1]?.getD 0) = t.head?.any isLetter := by
    cases t with
    | nil => rfl
    | cons c t => rfl
  rw [hletter]
  unfold Scan.isDecrement State.before
  cases s.tokens.getLast? with
  | none => rfl
  | some last =>
    by_cases htouch : last.kind = .identifier ∧ last.pos.map (· + last.lexeme.length) = some s.start
    · simp [htouch, run_pure]
    · have hapart : (last.kind == .identifier && last.pos.map (· + last.lexeme.length) == some s.start) = false := by
        simpa using htouch
      simp only [htouch, if_false, run_pure, Option.map_some, Option.any_some, hapart, Bool.false_or]

/-- Blanks and comments leave nothing but the place behind them. -/
theorem behind_skipped (s : State) {piece : Piece} (hpiece : piece = .blank ∨ piece = .comment) (bytes : Text) :
    s.behind ⟨piece, bytes, s.start, s.line⟩ = { s with current := s.start + bytes.length } := by
  rcases hpiece with rfl | rfl
  · simp [State.behind, Segment.nextLine, Segment.endLine, Segment.token?, Segment.diagnostic?]
  · simp [State.behind, Segment.nextLine, Segment.endLine, Segment.token?, Segment.diagnostic?]

theorem takes_character (h : Stands source s.start s.current [b] t) :
    Takes (do
      skipCharacter
      refuse .unexpectedCharacter) source s b t
      (.fault .unexpectedCharacter, (front? (b :: t)).elim 1 Char.utf8Size - 1) := by
  have hsize : 0 < (front? (b :: t)).elim 1 Char.utf8Size ∧
      (front? (b :: t)).elim 1 Char.utf8Size ≤ (b :: t).length := by
    cases hfront : front? (b :: t) with
    | none => exact ⟨Nat.one_pos, Nat.succ_le_succ (Nat.zero_le _)⟩
    | some c =>
      obtain ⟨u, htext⟩ := eq_append_of_front? hfront
      have hlength : (ofChar c).length = c.utf8Size := String.length_utf8EncodeChar c
      rw [htext, List.length_append, hlength]
      exact ⟨c.utf8Size_pos, Nat.le_add_right _ _⟩
  have hskip : skipCharacter.run source s =
      (goTo (s.start + (front? (b :: t)).elim 1 Char.utf8Size)).run source s := by
    simp only [skipCharacter, h.text, List.singleton_append]
  generalize (front? (b :: t)).elim 1 Char.utf8Size = size at hsize hskip
  obtain ⟨n, rfl⟩ := Nat.exists_eq_add_one.2 hsize.1
  have hstands : Stands source s.start (s.start + (n + 1)) (b :: t.take n) (t.drop n) := by
    refine ⟨?_, ?_, h.start_le⟩
    · rw [h.text]
      simp
    · rw [List.length_cons, List.length_take, Nat.min_eq_left (Nat.le_of_succ_le_succ hsize.2)]
  have hle : s.start + (n + 1) ≤ source.length := by
    have hlength := hstands.length_eq
    omega
  rw [Takes, run_bind_of (hskip.trans (run_goTo hle s))]
  exact run_refuse_behind hstands (by decide)

/-- A byte that starts nothing. -/
theorem pieceAt_other {before : Before} (hminus : ¬(b == byte '-' && t.head? == some (byte '-')) = true)
    (hmarks : b ∉ marks) (hnumber : ¬(isDigit b || (b == byte '.' && t.head?.any isDigit)) = true)
    (hletter : ¬isLetter b = true) (hsign : sign? (b :: t) = none) :
    pieceAt before b t = (.fault .unexpectedCharacter, (front? (b :: t)).elim 1 Char.utf8Size - 1) := by
  simp only [marks, List.mem_cons, List.not_mem_nil, or_false, not_or] at hmarks
  obtain ⟨hspace, hreturn, htab, hstring, hchar, hescape⟩ := hmarks
  unfold pieceAt
  rw [if_neg hminus, if_neg (by simp [hspace, hreturn, htab]), if_neg (by simpa using hstring),
    if_neg (by simpa using hchar), if_neg (by simpa using hescape), if_neg hnumber, if_neg hletter, hsign]

theorem sign?_eq_none (hline : b ≠ lineFeed) (h : signTable.find? (byte ·.1 == b) = none) (t : Text) :
    sign? (b :: t) = none := by
  have htable : ∀ entry ∈ signs, (ofString entry.1).head? = some lineFeed ∨
      ∃ first ∈ signTable, (ofString entry.1).head? = some (byte first.1) := by decide
  cases hsign : sign? (b :: t) with
  | none => rfl
  | some found =>
    obtain ⟨kind, size⟩ := found
    obtain ⟨spelling, hmem, rfl, hspelling⟩ := sign?_eq_some hsign
    obtain ⟨n, hn⟩ := Nat.exists_eq_add_one.2 (sign_first hsign).2.2.2.2
    have hhead : (ofString spelling).head? = some b := by
      rw [← hspelling, hn]
      rfl
    rcases htable _ hmem with hfeed | ⟨first, hfirst, hbyte⟩
    · exact absurd (Option.some.inj (hhead.symm.trans hfeed)) hline
    · have hnot := List.find?_eq_none.1 h first hfirst
      exact absurd (beq_iff_eq.2 (Option.some.inj (hbyte.symm.trans hhead))) hnot

theorem takes_afterMinus (h : Stands source s.start s.current [byte '-'] (byte '-' :: t))
    (hbudget : (byte '-' :: t).length < budget) :
    Takes (afterMinus budget) source s (byte '-') (byte '-' :: t) (pieceAt s.before (byte '-') (byte '-' :: t)) := by
  rw [Takes, afterMinus, pieceAt_minus, run_bind_of (run_isDecrement h)]
  cases Scan.isDecrement s.before t with
  | true => exact (run_bind_of (run_pass h)).trans (run_emit_behind h.next (by decide) (by decide))
  | false =>
    obtain ⟨u, hsplit, hline, hu⟩ := exists_takeWhile (· != lineFeed) (byte '-' :: t)
    change (goRound (inside (· != lineFeed)) pass budget).run source s = some (⟨⟩, s.behind ⟨.comment,
      byte '-' :: (byte '-' :: t).take ((byte '-' :: t).takeWhile (· != lineFeed)).length, s.start, s.line⟩)
    generalize (byte '-' :: t).takeWhile (· != lineFeed) = line at hsplit hline
    rw [hsplit] at h hbudget ⊢
    have hsize : line.length < budget := by
      rw [List.length_append] at hbudget
      omega
    have hplace : s.current + line.length = s.start + (byte '-' :: line).length := h.move.current_eq
    rw [run_skip tests_inside h hline hu hsize, List.take_left, behind_skipped s (.inr rfl), hplace]

/-- The first byte decides what is swept, as it decides what is found. -/
theorem takes_step (h : Stands source s.start s.current [] (b :: t)) (hbudget : t.length < budget) :
    Takes (step budget) source s b t (pieceAt s.before b t) := by
  have hcurrent : s.current = s.start := h.current_eq
  have hfirst : Stands source s.start (s.current + 1) [b] t := h.next
  have hnext : (t[0]?.getD 0 == byte '-') = (t.head? == some (byte '-')) := by
    cases t with
    | nil => rfl
    | cons c t => rfl
  have hdigit : isDigit (t[0]?.getD 0) = t.head?.any isDigit := by
    cases t with
    | nil => rfl
    | cons c t => rfl
  rw [Takes, step, run_bind_of (run_advance h), run_bind_of (run_peek hfirst 0), hnext, hdigit]
  by_cases hminus : (b == byte '-' && t.head? == some (byte '-')) = true
  · rw [if_pos hminus]
    simp only [Bool.and_eq_true, beq_iff_eq] at hminus
    obtain ⟨rfl, hhead⟩ := hminus
    obtain ⟨t, rfl⟩ := List.head?_eq_some_iff.1 hhead
    exact takes_afterMinus hfirst hbudget
  have hcut {found : Piece × Nat} (hcuts : Cuts b t found) : pieceAt s.before b t = found :=
    hcuts.pieceAt_eq s.before hminus
  rw [if_neg hminus]
  by_cases hblank : (b == 32 || b == 13 || b == 9) = true
  · have hpiece : pieceAt s.before b t = (.blank, 0) := by
      simp only [Bool.or_eq_true, beq_iff_eq] at hblank
      rcases hblank with (rfl | rfl) | rfl <;> rfl
    rw [if_pos hblank, run_pure, hpiece, behind_skipped s (.inl rfl), ← hcurrent]
    rfl
  rw [if_neg hblank]
  by_cases hline : b = lineFeed
  · subst hline
    rw [if_pos (by simp), run_bind_of (run_emit hfirst .newline none), pieceAt_lineFeed]
    simp [countLine, update, State.behind, Segment.nextLine, Segment.endLine, Segment.token?, Segment.diagnostic?,
      hcurrent]
  rw [if_neg (by simpa using hline)]
  by_cases hstring : b = byte '"'
  · subst hstring
    rw [if_pos (by simp), hcut (.string rfl rfl)]
    exact takes_string hfirst hbudget
  rw [if_neg (by simpa using hstring)]
  by_cases hchar : b = byte '\''
  · subst hchar
    rw [if_pos (by simp), hcut (.char rfl rfl)]
    exact takes_char hfirst hbudget
  rw [if_neg (by simpa using hchar)]
  by_cases hescape : b = byte '['
  · subst hescape
    rw [if_pos (by simp), hcut (.escape rfl rfl)]
    exact takes_escape hfirst hbudget
  rw [if_neg (by simpa using hescape)]
  by_cases hnumber : (isDigit b || (b == byte '.' && t.head?.any isDigit)) = true
  · rw [if_pos hnumber, hcut (.number hnumber rfl rfl)]
    exact takes_number hnumber hfirst hbudget
  rw [if_neg hnumber]
  by_cases hletter : isLetter b = true
  · rw [if_pos hletter, hcut (.word hletter rfl)]
    exact takes_identifier hletter hfirst hbudget
  rw [if_neg hletter]
  cases hsign : signTable.find? (byte ·.1 == b) with
  | some entry =>
    have htable : ∀ entry ∈ signTable, (entry.2.2 ≠ .string ∧ entry.2.2 ≠ .newline) ∧
        ∀ longer ∈ entry.2.1, longer.2 ≠ .string ∧ longer.2 ≠ .newline := by decide
    obtain rfl : byte entry.1 = b := by simpa using List.find?_some hsign
    have hmem := List.mem_of_find?_eq_some hsign
    obtain ⟨hkind, hlonger⟩ := htable entry hmem
    rw [hcut (.sign (sign?_eq_signFound hmem t) rfl)]
    exact takes_sign hfirst hkind hlonger
  | none =>
    have hmarks : b ∉ marks := by simpa [marks, hstring, hchar, hescape, and_assoc] using hblank
    rw [pieceAt_other hminus hmarks hnumber hletter (sign?_eq_none hline hsign t)]
    exact takes_character hfirst

end Segments

/-! ## The whole source -/

section Source

variable {source t : Text} {s : State} {b : UInt8} {budget bound : Nat}

/-- The state with the mark at the cursor. -/
def State.marked (s : State) : State := { s with start := s.current }

/-- The segment that starts at the cursor. -/
def State.found (s : State) (b : UInt8) (t : Text) : Segment :=
  let found := pieceAt s.marked.before b t
  { piece := found.1, bytes := b :: t.take found.2, pos := s.current, line := s.line }

theorem run_segment (h : source.drop s.current = b :: t) (hbudget : t.length < budget) :
    (segment budget).run source s = some (⟨⟩, s.marked.behind (s.found b t)) := by
  have hle : s.current ≤ source.length := by
    refine Nat.le_of_not_lt fun hlt => ?_
    rw [List.drop_eq_nil_of_le (Nat.le_of_lt hlt)] at h
    cases h
  have hstep : (step budget).run source s.marked = some (⟨⟩, s.marked.behind (s.found b t)) :=
    takes_step ⟨h, rfl, hle⟩ hbudget
  have hforward : s.marked.current < (s.marked.behind (s.found b t)).current := by
    change s.current < s.current + (t.take _).length.succ
    omega
  change (onward (step budget)).run source s.marked = _
  rw [onward, run_state, run_bind_of hstep, run_state]
  rw [if_pos hforward, run_pure]

theorem length_found (s : State) (b : UInt8) (t : Text) :
    (s.found b t).bytes.length = (pieceAt s.marked.before b t).2 + 1 := by
  have hsize := (within_pieceAt s.marked.before b t).size_le
  change (b :: t.take _).length = _
  rw [List.length_cons, List.length_take, Nat.min_eq_left hsize]

/-- Each segment takes the cursor forward, not past the end. -/
theorem advances_segment (h : s.current < source.length) (hbudget : source.length ≤ budget) :
    ∃ s', (segment budget).run source s = some (⟨⟩, s') ∧ s.current < s'.current ∧ s'.current ≤ source.length := by
  obtain ⟨b, t, hdrop⟩ : ∃ b t, source.drop s.current = b :: t := ⟨_, _, List.drop_eq_getElem_cons h⟩
  have hlength := congrArg List.length hdrop
  rw [List.length_drop, List.length_cons] at hlength
  have hsize := (within_pieceAt s.marked.before b t).size_le
  refine ⟨_, run_segment hdrop (by omega), ?_⟩
  change s.current < s.current + (s.found b t).bytes.length ∧ s.current + (s.found b t).bytes.length ≤ source.length
  rw [length_found]
  omega

/-- The tokens end at the cursor or before it. -/
def State.Ended (s : State) : Prop :=
  ∀ last ∈ s.tokens.getLast?, ∃ pos, last.pos = some pos ∧ pos + last.lexeme.length ≤ s.current

/-- No token touches a place behind the cursor. -/
theorem State.Ended.not_touching (h : s.Ended) {place : Nat} (hplace : s.current < place) :
    (s.tokens.getLast?.any fun last => last.pos.map (· + last.lexeme.length) == some place) = false := by
  cases hlast : s.tokens.getLast? with
  | none => rfl
  | some last =>
    obtain ⟨pos, hpos, hle⟩ := h last hlast
    have hne : pos + last.lexeme.length ≠ place := by omega
    simp [hpos, hne]

/-- The last token tells what stands before the next segment. -/
theorem before_behind (h : s.Ended) {part : Segment} (hpos : part.pos = s.current) (hbytes : part.bytes ≠ []) :
    (s.marked.behind part).marked.before = s.marked.before.after part.piece := by
  have hapart := h.not_touching (Nat.lt_add_of_pos_right (List.length_pos_iff.2 hbytes))
  obtain ⟨piece, bytes, pos, line⟩ := part
  cases piece with
  | token kind literal =>
    obtain rfl : pos = s.current := hpos
    simp [State.before, State.behind, State.marked, Segment.token?, Before.after]
  | blank | comment | fault =>
    simpa [State.before, State.behind, State.marked, Segment.token?, Before.after] using hapart

theorem ended_behind (h : s.Ended) {part : Segment} (hpos : part.pos = s.current) :
    (s.marked.behind part).Ended := by
  have hmore (last : Token) (hlast : last ∈ s.tokens.getLast?) :
      ∃ pos, last.pos = some pos ∧ pos + last.lexeme.length ≤ s.current + part.bytes.length := by
    obtain ⟨pos, hpos, hle⟩ := h last hlast
    exact ⟨pos, hpos, Nat.le_trans hle (Nat.le_add_right _ _)⟩
  obtain ⟨piece, bytes, pos, line⟩ := part
  intro last hlast
  cases piece with
  | token kind literal =>
    obtain rfl : _ = last := by simpa [State.behind, Segment.token?] using hlast
    exact ⟨pos, rfl, Nat.le_of_eq (congrArg (· + bytes.length) hpos)⟩
  | blank | comment | fault => exact hmore last (by simpa [State.behind, State.marked, Segment.token?] using hlast)

theorem filterMap_cons_toList {α : Type} (f : Segment → Option α) (part : Segment) (parts : List Segment) :
    (part :: parts).filterMap f = (f part).toList ++ parts.filterMap f := by
  rw [List.filterMap_cons]
  cases f part <;> rfl

/-- By induction on the segments of the source. -/
theorem run_rounds (source : Text) (budget : Nat) (before : Before) (pos line : Nat) (t : Text) :
    ∀ s : State, s.current = pos → s.line = line → s.marked.before = before → s.Ended →
      source.drop pos = t → pos ≤ source.length → ∀ bound, t.length < bound → t.length ≤ budget →
      ∃ start, (goRound unfinished (segment budget) bound).run source s =
        some (⟨⟩, {
          start := start, current := source.length, line := lineAfter line (segmentsFrom before pos line t),
          tokens := s.tokens ++ (segmentsFrom before pos line t).filterMap Segment.token?,
          reports := s.reports ++ (segmentsFrom before pos line t).filterMap Segment.diagnostic? }) := by
  fun_induction segmentsFrom before pos line t with
  | case1 before pos line =>
    rintro s rfl rfl - - hdrop hle bound hbound -
    obtain ⟨bound, rfl⟩ := Nat.exists_eq_add_one.2 hbound
    have hend : source.length = s.current := by
      have hlength := congrArg List.length hdrop
      rw [List.length_drop, List.length_nil] at hlength
      omega
    refine ⟨s.start, ?_⟩
    rw [goRound, run_bind_of (run_unfinished source s), if_neg (by simp [hend]), run_pure, hend, List.filterMap_nil,
      List.append_nil, List.filterMap_nil, List.append_nil]
    rfl
  | case2 before pos line b t found part ih =>
    rintro s rfl rfl rfl hended hdrop hle bound hbound hbudget
    obtain ⟨bound, rfl⟩ := Nat.exists_eq_add_one.2 (Nat.zero_lt_of_lt hbound)
    have hlength := congrArg List.length hdrop
    have hsize : found.2 ≤ t.length := (within_pieceAt s.marked.before b t).size_le
    have hbytes : part.bytes.length = found.2 + 1 := length_found s b t
    rw [List.length_drop, List.length_cons] at hlength
    rw [List.length_cons] at hbound hbudget
    have hrest : source.drop (s.current + part.bytes.length) = t.drop found.2 := by
      rw [← List.drop_drop, hdrop, hbytes]
      rfl
    have hmore : (t.drop found.2).length ≤ t.length := (List.drop_sublist _ _).length_le
    have hsegment : (segment budget).run source s = some (⟨⟩, s.marked.behind part) := run_segment hdrop hbudget
    obtain ⟨start, hrounds⟩ := ih (s.marked.behind part) rfl rfl (before_behind hended rfl (List.cons_ne_nil _ _))
      (ended_behind hended rfl) hrest (by omega) bound (by omega) (by omega)
    refine ⟨start, ?_⟩
    rw [goRound, run_bind_of (run_unfinished source s), if_pos (by simp; omega), run_bind_of hsegment, hrounds,
      lineAfter_cons, filterMap_cons_toList, filterMap_cons_toList, ← List.append_assoc, ← List.append_assoc]
    rfl

/-- The sweep over a source is not lost, and gives what scanning gives. -/
theorem run_all (source : Text) (hbudget : source.length < budget) :
    (all budget).run source ⟨0, 0, 1, [], []⟩ = some (⟨⟩, {
      start := source.length, current := source.length, line := (scan source).lastLine,
      tokens := (scan source).tokens, reports := (scan source).diagnostics }) := by
  obtain ⟨start, hrounds⟩ := run_rounds source budget {} 0 1 source ⟨0, 0, 1, [], []⟩ rfl rfl rfl
    (fun _ h => by cases h) List.drop_zero (Nat.zero_le _) budget hbudget (Nat.le_of_lt hbudget)
  have hend : Stands source source.length source.length [] [] := ⟨List.drop_length, rfl, Nat.le_refl _⟩
  rw [all, run_bind_of hrounds]
  exact run_emit hend .eof none

end Source

end BisayaPlus.Sweep
