import BisayaPlus.Proofs.DecimalNumerals
import BisayaPlus.Proofs.Outcomes
import BisayaPlus.Proofs.ProgramGrammar
import BisayaPlus.Proofs.Reached
import BisayaPlus.Proofs.Targets
import BisayaPlus.Proofs.TrailingComments
import Mathlib.Data.Fintype.Basic
import Mathlib.Tactic.FinCases
/-!
# Integers in a source

The decimal spelling of an integer is scanned to a number, with a minus sign in
front of it if the integer is negative, and it is read as an expression whose
value is the integer. So the program that prints the spelling prints it. The
digits are judged without their sign, and those of the least integer are out of
range.
-/

set_option autoImplicit false

namespace BisayaPlus

open Text Scan

namespace Scan

/-! ## Digits and signs -/

section Digits

variable {pos line : Nat} {rest : Text} {tokens : List Token}

/-- In front of the end of a line, a text is cut into these tokens and nothing
else. -/
def ScansTo (before : Before) (pos line : Nat) (text : Text) (tokens : List Token) : Prop :=
  ∀ rest, EndsLine rest → ∃ parts,
    segmentsFrom before pos line (text ++ rest) = parts ++ segmentsFrom {} (pos + text.length) line rest ∧
      parts.filterMap Segment.diagnostic? = [] ∧ parts.filterMap Segment.token? = tokens

theorem pieceAt_digits (before : Before) {b : UInt8} {t : Text} {i : Int64}
    (hdigits : ∀ c ∈ b :: t, isDigit c = true) (hi : Numeral.int64? (b :: t) = some i) (hrest : EndsLine rest) :
    pieceAt before b (t ++ rest) = (.token .number (some (.numero i)), t.length) := by
  have hb : isDigit b = true := hdigits b List.mem_cons_self
  have hminus : ¬(b == byte '-' && (t ++ rest).head? == some (byte '-')) = true := by
    intro h
    obtain rfl : b = byte '-' := by simpa using (Bool.and_eq_true_iff.1 h).1
    exact absurd hb (by decide)
  have hstop : ∀ c ∈ rest.head?, isDigit c = false ∧ (lowerByte c == byte 'e') = false := by
    intro c hc
    rw [hrest c hc]
    decide
  have hpoint : ∀ r, rest = 46 :: r → r.takeWhile isDigit = [] := by
    rintro r rfl
    exact absurd (hrest 46 rfl) (by decide)
  have hmantissa := mantissa_whole hdigits (fun c hc => (hstop c hc).1) hpoint
  have hnumber := numberPiece_plain hmantissa fun c hc => (hstop c hc).2
  have hpiece : numeralPiece false (b :: t) = .token .number (some (.numero i)) := by simp [numeralPiece, hi]
  rw [hpiece] at hnumber
  exact Cuts.pieceAt_eq before (.number (by simp [hb]) hnumber rfl) hminus

theorem lineFeeds_digits {t : Text} (h : ∀ c ∈ t, isDigit c = true) : lineFeeds t = 0 :=
  List.count_eq_zero.2 fun hmem => absurd (h _ hmem) (by decide)

/-- Digits are one token. -/
theorem scansTo_digits (before : Before) (pos line : Nat) {t : Text} {i : Int64}
    (hdigits : ∀ c ∈ t, isDigit c = true) (hi : Numeral.int64? t = some i) :
    ScansTo before pos line t
      [{ kind := .number, lexeme := t, literal := some (.numero i), line := line, pos := some pos }] := by
  intro rest hrest
  cases t with
  | nil => cases hi
  | cons b t =>
    have hfeeds : lineFeeds (b :: t) = 0 := lineFeeds_digits hdigits
    have hpiece := pieceAt_digits before hdigits hi hrest
    refine ⟨[⟨.token .number (some (.numero i)), b :: t, pos, line⟩], ?_, rfl, ?_⟩
    · rw [segmentsFrom_cons_append hpiece le_rfl, List.take_length, List.drop_length, List.nil_append, hfeeds,
        segmentsFrom_endsLine hrest]
      rfl
    · simp [Segment.token?, Segment.endLine]

theorem pieceAt_minus_digit (before : Before) (d : Fin 10) (t : Text) :
    pieceAt before (byte '-') (Numeral.digitByte d :: t) = (.token .minus none, 0) := by
  fin_cases d <;> rfl

/-- A minus sign in front of a digit is a token of its own. -/
theorem ScansTo.minus (before : Before) {d : Fin 10} {t : Text}
    (h : ScansTo ⟨some .minus, true⟩ (pos + 1) line (Numeral.digitByte d :: t) tokens) :
    ScansTo before pos line (byte '-' :: Numeral.digitByte d :: t)
      ({ kind := .minus, lexeme := [byte '-'], line := line, pos := some pos } :: tokens) := by
  intro rest hrest
  obtain ⟨parts, hparts, hreports, htokens⟩ := h rest hrest
  refine ⟨⟨.token .minus none, [byte '-'], pos, line⟩ :: parts, ?_, hreports, ?_⟩
  · have hlength : pos + (byte '-' :: Numeral.digitByte d :: t).length =
        pos + 1 + (Numeral.digitByte d :: t).length := by
      simp only [List.length_cons]
      omega
    rw [hlength, List.cons_append]
    exact (segmentsFrom_cons (pieceAt_minus_digit before d (t ++ rest))).trans (congrArg _ hparts)
  · rw [List.filterMap_cons, htokens]
    rfl

end Digits

end Scan

/-! ## Programs that print an expression -/

namespace Printing

/-- The program that prints an expression. -/
def source (expression : Text) : Text :=
  ofString "SUGOD\nIPAKITA: " ++ expression ++ ofString "\nKATAPUSAN\n"

/-- Its keyword. -/
def keyword : Token := { kind := .ipakita, lexeme := "IPAKITA", line := 2, pos := some 6 }

/-- The tokens in front of the expression. -/
def opening : List Token := [
  { kind := .sugod, lexeme := "SUGOD", line := 1, pos := some 0 },
  { kind := .newline, lexeme := "\n", line := 1, pos := some 5 },
  keyword,
  { kind := .colon, lexeme := ":", line := 2, pos := some 13 }]

/-- The tokens behind the expression, up to the end. -/
def closing (pos : Nat) : List Token := [
  { kind := .newline, lexeme := "\n", line := 2, pos := some pos },
  { kind := .katapusan, lexeme := "KATAPUSAN", line := 3, pos := some (pos + 1) },
  { kind := .newline, lexeme := "\n", line := 3, pos := some (pos + 10) }]

theorem segmentsFrom_opening (r : Text) :
    ∃ parts, segmentsFrom {} 0 1 (ofString "SUGOD\nIPAKITA: " ++ r) =
        parts ++ segmentsFrom ⟨some .colon, false⟩ 15 2 r ∧
      parts.filterMap Segment.diagnostic? = [] ∧ parts.filterMap Segment.token? = opening := by
  have hsugod : pieceAt {} 83 (ofString "UGOD\nIPAKITA: " ++ r) = (.token .sugod none, 4) := rfl
  have hnewline (before : Before) : pieceAt before 10 (ofString "IPAKITA: " ++ r) = (.token .newline none, 0) := rfl
  have hipakita (before : Before) : pieceAt before 73 (ofString "PAKITA: " ++ r) = (.token .ipakita none, 6) := rfl
  have hcolon (before : Before) : pieceAt before 58 (ofString " " ++ r) = (.token .colon none, 0) := rfl
  have hspace (before : Before) : pieceAt before 32 r = (.blank, 0) := rfl
  refine ⟨[⟨.token .sugod none, "SUGOD", 0, 1⟩, ⟨.token .newline none, "\n", 5, 1⟩,
    ⟨.token .ipakita none, "IPAKITA", 6, 2⟩, ⟨.token .colon none, ":", 13, 2⟩, ⟨.blank, " ", 14, 2⟩], ?_, rfl, rfl⟩
  -- one step for each segment, since the recursion does not unfold by itself
  exact (segmentsFrom_cons hsugod).trans <| congrArg _ <| (segmentsFrom_cons (hnewline _)).trans <| congrArg _ <|
    (segmentsFrom_cons (hipakita _)).trans <| congrArg _ <| (segmentsFrom_cons (hcolon _)).trans <| congrArg _ <|
    segmentsFrom_cons (hspace _)

theorem segmentsFrom_closing (pos : Nat) :
    (segmentsFrom {} pos 2 (ofString "\nKATAPUSAN\n")).filterMap Segment.diagnostic? = [] ∧
      (segmentsFrom {} pos 2 (ofString "\nKATAPUSAN\n")).filterMap Segment.token? = closing pos := by
  have hnewline (before : Before) (t : Text) : pieceAt before 10 t = (.token .newline none, 0) := rfl
  have hkatapusan (before : Before) : pieceAt before 75 (ofString "ATAPUSAN\n") = (.token .katapusan none, 8) := rfl
  have hsegments : segmentsFrom {} pos 2 (ofString "\nKATAPUSAN\n") = [⟨.token .newline none, "\n", pos, 2⟩,
      ⟨.token .katapusan none, "KATAPUSAN", pos + 1, 3⟩, ⟨.token .newline none, "\n", pos + 10, 3⟩] :=
    (segmentsFrom_cons (hnewline _ _)).trans <| congrArg _ <| (segmentsFrom_cons (hkatapusan _)).trans <| congrArg _ <|
      (segmentsFrom_cons (hnewline _ [])).trans <| congrArg _ <| segmentsFrom.eq_1 ..
  rw [hsegments]
  exact ⟨rfl, rfl⟩

variable {text : Text} {tokens : List Token} {e : Expr}

/-- The tokens of the program, if the expression is scanned to these. -/
theorem scan_source (h : ScansTo ⟨some .colon, false⟩ 15 2 text tokens) :
    (scan (source text)).diagnostics = [] ∧ ∃ last, last.kind = .eof ∧
      (scan (source text)).tokens = opening ++ tokens ++ closing (15 + text.length) ++ [last] := by
  have hline : EndsLine (ofString "\nKATAPUSAN\n") := fun c hc => (Option.some.inj hc).symm
  obtain ⟨parts, hparts, hreports, htokens⟩ := h _ hline
  obtain ⟨first, hfirst, hfirstReports, hfirstTokens⟩ := segmentsFrom_opening (text ++ ofString "\nKATAPUSAN\n")
  obtain ⟨hlastReports, hlastTokens⟩ := segmentsFrom_closing (15 + text.length)
  have hsegments : segments (source text) =
      first ++ (parts ++ segmentsFrom {} (15 + text.length) 2 (ofString "\nKATAPUSAN\n")) := by
    rw [segments, source, List.append_assoc, hfirst, hparts]
  refine ⟨?_, { kind := .eof, lexeme := [], line := (scan (source text)).lastLine, pos := some (source text).length },
    rfl, ?_⟩
  · simp [scan, hsegments, hfirstReports, hreports, hlastReports]
  · rw [tokens_eq_concat, hsegments, List.filterMap_append, List.filterMap_append, hfirstTokens, htokens, hlastTokens,
      ← List.append_assoc]

open Grammar

/-- The tokens are a program if the expression is one. -/
theorem isProgram (he : Expression .assignment tokens e) (pos : Nat) {last : Token} (hlast : last.kind = .eof) :
    IsProgram (opening ++ tokens ++ closing pos ++ [last]) [.ipakita keyword e] := by
  obtain ⟨newline, katapusan, newline', hclosing, hnewline, hkatapusan, hnewline'⟩ :
      ∃ newline katapusan newline' : Token, closing pos = [newline, katapusan, newline'] ∧ newline.kind = .newline ∧
        katapusan.kind = .katapusan ∧ newline'.kind = .newline := ⟨_, _, _, rfl, rfl, rfl, rfl⟩
  obtain ⟨sugod, newline₀, colon, hopening, hsugod, hnewline₀, hcolon⟩ :
      ∃ sugod newline colon : Token, opening = [sugod, newline, keyword, colon] ∧ sugod.kind = .sugod ∧
        newline.kind = .newline ∧ colon.kind = .colon := ⟨_, _, _, rfl, rfl, rfl, rfl⟩
  have hstatement : Derives false (.statement (.ipakita keyword e)) (keyword :: colon :: tokens ++ [newline])
      ([] ++ (katapusan :: [newline'] ++ [last])) := .ipakita rfl hcolon he (.line hnewline)
  have hitems := Derives.newline hnewline₀ (hstatement.item .noItem)
  have hnone : Blank [] := by simp [Blank]
  have hprogram := IsProgram.mk hnone hsugod hitems hkatapusan (by simpa [Blank] using hnewline') hlast
  rw [hopening, hclosing]
  simpa using hprogram

/-- The program is accepted, and its only statement prints the expression. -/
theorem statements_source (h : ScansTo ⟨some .colon, false⟩ 15 2 text tokens) (he : Expression .assignment tokens e) :
    (Program.ofSource (source text)).accepted = true ∧
      (Program.ofSource (source text)).statements = [.ipakita keyword e] := by
  obtain ⟨hreports, last, hlast, htokens⟩ := scan_source h
  have hprogram := isProgram he (15 + text.length) hlast
  rw [← htokens] at hprogram
  obtain ⟨rest, hreads⟩ := reads_of_program hprogram (Nat.lt_add_of_pos_right (Nat.succ_pos 2))
  refine ⟨?_, statements_of_reads hreads⟩
  rw [Program.accepted, Program.ofSource, Program.diagnostics_ofScanned hreports,
    complaints_eq_nil_iff.2 ⟨_, _, _, hreads⟩]
  rfl

end Printing

/-! ## Runs -/

open Grammar Execution

namespace Program

/-- A print of an expression that changes nothing. -/
theorem run_ipakita {keyword : Token} {e : Expr} {v : Value} (hvalue : ∀ s, e.evaluate s = (.ok v, s)) (rounds : Nat)
    (m : Machine) : (Stmt.ipakita keyword e).execute {} rounds m =
      (.ok .normal, { m with prints := m.prints + 1, shown := .printed v.display :: m.shown }) := by
  have hannounced : announced {} (.ipakita keyword e) m = m := rfl
  rw [Stmt.execute, run_bind, run_announced, hannounced]
  dsimp only
  rw [run_bind, Expr.run_value, hvalue]
  rfl

/-- A run of a program that only prints an expression. -/
theorem run_print {p : Program} {keyword : Token} {e : Expr} {v : Value} (haccepted : p.accepted = true)
    (hstatements : p.statements = [.ipakita keyword e]) (hvalue : ∀ s, e.evaluate s = (.ok v, s)) (rounds : Nat)
    (replies : List Reply) :
    p.run {} rounds replies = { outcome := .ok, events := [.printed v.display], unread := replies } := by
  have hclean : p.diagnostics = [] := by simpa [accepted] using haccepted
  obtain ⟨hscan, htokens⟩ := List.append_eq_nil_iff.1 hclean
  have hreading : p.readingEvents {} = [] := by
    simp [readingEvents, reportEvents, logEvents, hscan, htokens]
  have hinterpret : ∀ shown, interpret {} rounds p.statements { Machine.fresh replies with shown := shown } =
      (.ok ⟨⟩, { ({ Machine.fresh replies with prints := 1 } : Machine) with
        shown := [.printed v.display] ++ shown }) := by
    intro shown
    rw [hstatements, interpret, run_bind, run_ipakita hvalue]
    rfl
  rw [run, execution_accepted {} rounds replies haccepted hinterpret, hreading]
  rfl

end Program

/-! ## Integers -/

theorem expression_of_unary {ts : List Token} {e : Expr} (h : Expression .unary ts e) : Expression .assignment ts e :=
  .tighter (by decide) <| .tighter (by decide) <| .tighter (by decide) <| .tighter (by decide) <|
    .tighter (by decide) <| .tighter (by decide) <| .tighter (by decide) h

theorem expression_number {t : Token} (h : t.kind = .number) :
    Expression .unary [t] (.literal (t.literal.getD .null)) :=
  .tighter (by decide) (.valued (by simp [h]))

/-- The spelling of an integer that is not negative is a literal. -/
theorem exists_expression_ofNat {n : Int64} {k : Nat} (hk : n.toInt = k) (before : Before) (pos line : Nat) :
    ∃ token e, ScansTo before pos line (Text.ofNat k) [token] ∧ Expression .unary [token] e ∧
      ∀ s, e.evaluate s = (.ok (.numero n), s) := by
  have hread := Numeral.int64?_ofInt n
  rw [hk] at hread
  exact ⟨_, _, scansTo_digits before pos line (fun _ => Numeral.isDigit_of_mem_ofNat) hread, expression_number rfl,
    fun _ => rfl⟩

theorem toInt_neg_of_ne {n : Int64} (hn : n ≠ Int64.minValue) : (-n).toInt = -n.toInt := by
  have hleast : n.toInt ≠ -2 ^ 63 := by
    rw [← Int64.toInt_minValue]
    exact fun h => hn (Int64.toInt_inj.1 h)
  have hlow : -2 ^ 63 ≤ n.toInt := n.minValue_le_toInt
  have hhigh : n.toInt ≤ 2 ^ 63 - 1 := n.toInt_le
  rw [Int64.toInt_neg, Int.bmod_eq_of_le (by omega) (by omega)]

/-- The spelling of a negative integer is a sign and a literal, unless the
literal would be out of range. -/
theorem exists_expression {n : Int64} (hn : n ≠ Int64.minValue) (before : Before) (pos line : Nat) :
    ∃ tokens e, ScansTo before pos line (Value.numero n).display tokens ∧ Expression .assignment tokens e ∧
      ∀ s, e.evaluate s = (.ok (.numero n), s) := by
  rw [Value.display]
  cases hsign : n.toInt with
  | ofNat k =>
    obtain ⟨token, e, hscans, he, hvalue⟩ := exists_expression_ofNat hsign before pos line
    exact ⟨[token], e, hscans, expression_of_unary he, hvalue⟩
  | negSucc k =>
    have hneg : (-n).toInt = (k + 1 : Nat) := by
      rw [toInt_neg_of_ne hn, hsign]
      omega
    obtain ⟨ds, hne, htext, -⟩ := Numeral.exists_digits_ofNat (k + 1)
    obtain ⟨d, ds, rfl⟩ := List.exists_cons_of_ne_nil hne
    obtain ⟨token, e, hscans, he, hvalue⟩ := exists_expression_ofNat hneg ⟨some .minus, true⟩ (pos + 1) line
    rw [Text.ofInt, htext]
    rw [htext] at hscans
    refine ⟨_, _, ScansTo.minus before hscans, expression_of_unary (.unary (by simp) he), fun s => ?_⟩
    rw [Expr.evaluate, Evaluation.run_bind, hvalue]
    dsimp only
    rw [Evaluation.run_ofExcept, Operation.unary, if_neg (by simp), Int64.neg_neg]

/-- Every integer but the least can be written in a source. The program that
prints the spelling of the integer is accepted, its one statement prints an
expression with this value, and a run prints the spelling and nothing else. -/
theorem integer_literal_prints (n : Int64) (hn : n ≠ Int64.minValue) (rounds : Nat) (replies : List Reply) :
    let p := Program.ofSource (Printing.source (Value.numero n).display)
    p.accepted = true ∧
      (∃ keyword e, p.statements = [.ipakita keyword e] ∧ ∀ s, e.evaluate s = (.ok (.numero n), s)) ∧
      p.run {} rounds replies =
        { outcome := .ok, events := [.printed (Value.numero n).display], unread := replies } := by
  intro p
  obtain ⟨tokens, e, hscans, hexpression, hvalue⟩ := exists_expression hn ⟨some .colon, false⟩ 15 2
  obtain ⟨haccepted, hstatements⟩ := Printing.statements_source hscans hexpression
  exact ⟨haccepted, ⟨_, e, hstatements, hvalue⟩,
    Program.run_print haccepted hstatements hvalue rounds replies⟩

/-- The integer one above the least. -/
theorem integer_literal_prints_negative :
    let n := Int64.minValue + 1
    let p := Program.ofSource (Printing.source "-9223372036854775807")
    n ≠ Int64.minValue ∧ p.accepted = true ∧
      p.run {} 1 [] = { outcome := .ok, events := [.printed "-9223372036854775807"], unread := [] } := by
  intro n p
  have hdisplay : (Value.numero n).display = Text.ofString "-9223372036854775807" := by decide +kernel
  obtain ⟨haccepted, -, hrun⟩ := integer_literal_prints n (by decide) 1 []
  rw [hdisplay] at haccepted hrun
  exact ⟨by decide, haccepted, hrun⟩

/-- The digits of the least integer are out of range without their sign, so its
spelling is not accepted. -/
theorem least_integer_not_literal :
    let p := Program.ofSource (Printing.source (Value.numero Int64.minValue).display)
    p.accepted = false ∧ (p.run {} 1 []).outcome = .syntaxError ∧
      p.scanned.diagnostics.map (·.message) = [ScanFault.invalidNumber.message] := by
  decide +kernel

end BisayaPlus
