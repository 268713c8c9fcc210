import BisayaPlus.Proofs.LineFeeds
/-!
# Sweeping over bytes

The bytes of a source can also be scanned in place: a cursor moves over them,
looks up to two bytes ahead, marks where a segment starts, counts the line feeds
it passes, and goes back from a second word that makes no phrase with the first.
Such a sweep could pass the end of the source, cut out a stretch that is not
there, go round without moving, or never end. Here a sweep that does any of this
is lost.
-/

set_option autoImplicit false

namespace BisayaPlus

open Text Scan

/-- Where a sweep stands: the start of its segment, the place of the next byte,
the line counter, and the tokens and reports so far. -/
structure Sweep.State where
  start : Nat
  current : Nat
  line : Nat
  tokens : List Token
  reports : List Diagnostic

/-- A part of a sweep, which has no result if it is lost. -/
structure Sweep (α : Type) where
  run : Text → Sweep.State → Option (α × Sweep.State)

namespace Sweep

variable {α β : Type}

instance : Monad Sweep where
  pure a := ⟨fun _ s => some (a, s)⟩
  bind x f := ⟨fun source s =>
    match x.run source s with
    | some (a, s) => (f a).run source s
    | none => none⟩

/-! ## Steps -/

def lost : Sweep α where
  run _ _ := none

def state : Sweep State where
  run _ s := some (s, s)

def update (f : State → State) : Sweep PUnit where
  run _ s := some (⟨⟩, f s)

def atEnd : Sweep Bool where
  run source s := some (decide (source.length ≤ s.current), s)

def unfinished : Sweep Bool := do
  let ended ← atEnd
  pure !ended

/-- The byte so many places behind the next one. Past the end it is zero. -/
def peek (ahead : Nat) : Sweep UInt8 where
  run source s := some (source[s.current + ahead]?.getD 0, s)

/-- The first byte of the segment, which has to be there. -/
def first : Sweep UInt8 where
  run source s := source[s.start]?.map fun b => (b, s)

/-- Passes the next byte. At the end the sweep is lost. -/
def advance : Sweep UInt8 where
  run source s := source[s.current]?.map fun b => (b, { s with current := s.current + 1 })

def pass : Sweep PUnit := do
  let _ ← advance

/-- Passes the next byte if it is this one. -/
def accept (b : UInt8) : Sweep Bool where
  run source s :=
    if source[s.current]? = some b then some (true, { s with current := s.current + 1 }) else some (false, s)

/-- Moves the cursor to a place inside the source or to its end. -/
def goTo (place : Nat) : Sweep PUnit where
  run source s := if place ≤ source.length then some (⟨⟩, { s with current := place }) else none

/-- The bytes from one place to another, which have to be there. -/
def stretch (first last : Nat) : Sweep Text where
  run source s := if first ≤ last ∧ last ≤ source.length then some ((source.take last).drop first, s) else none

/-- The bytes of the segment so far. -/
def lexeme : Sweep Text := do
  let s ← state
  stretch s.start s.current

/-- The bytes between the first and the last one. -/
def content : Sweep Text := do
  let s ← state
  stretch (s.start + 1) (s.current - 1)

def emit (kind : Kind) (literal : Option Value) : Sweep PUnit := do
  let bytes ← lexeme
  update fun s =>
    { s with tokens := s.tokens ++ [{ kind := kind, lexeme := bytes, literal := literal, line := s.line,
                                      pos := some s.start }] }

/-- Reports the segment so far, up to its first line feed. -/
def refuse (fault : ScanFault) : Sweep PUnit := do
  let bytes ← lexeme
  let quoted := bytes.takeWhile (· != lineFeed)
  update fun s =>
    { s with reports := s.reports ++ [{ phase := .reading, line := s.line,
                                        place := (" at '" : String) ++ quoted ++ ("'" : String),
                                        message := fault.message }] }

def countLine : Sweep PUnit := update fun s => { s with line := s.line + 1 }

def mark : Sweep PUnit := update fun s => { s with start := s.current }

/-! ## Loops -/

/-- Goes round while a test holds, but fewer times than `bound`. -/
def goRound (test : Sweep Bool) (round : Sweep PUnit) : Nat → Sweep PUnit
  | 0 => lost
  | bound + 1 => do
    if ← test then do
      round
      goRound test round bound
    else pure ⟨⟩

/-- The next byte is in a class. Past the end there is a zero. -/
def ahead (p : UInt8 → Bool) : Sweep Bool := do
  let b ← peek 0
  pure (p b)

/-- There is a next byte and it is in a class. -/
def inside (p : UInt8 → Bool) : Sweep Bool := do
  if ← atEnd then pure false
  else ahead p

/-- Passes the next byte if it is in a class. -/
def passIf (p : UInt8 → Bool) : Sweep PUnit := do
  if ← ahead p then pass else pure ⟨⟩

def digits (budget : Nat) : Sweep PUnit := goRound (ahead isDigit) pass budget

def word (budget : Nat) : Sweep PUnit := goRound (ahead isWordByte) pass budget

/-! ## Segments -/

/-- Passes the next byte and counts it if it is a line feed. -/
def passCounting : Sweep PUnit := do
  if ← ahead (· == lineFeed) then do
    countLine
    pass
  else pass

/-- A text to its closing quote. -/
def string (budget : Nat) : Sweep PUnit := do
  goRound (inside (· != byte '"')) passCounting budget
  if ← atEnd then refuse .unterminatedString
  else do
    pass
    let body ← content
    emit .string (some (.pulong body))

/-- Moves to a closing byte on the same line, which is passed. -/
def closing (budget : Nat) (q : UInt8) : Sweep Bool := do
  goRound (inside fun b => b != q && b != lineFeed) pass budget
  if ← atEnd then pure false
  else if ← ahead (· == lineFeed) then pure false
  else do
    pass
    pure true

def char (budget : Nat) : Sweep PUnit := do
  if ← closing budget (byte '\'') then do
    let body ← content
    match single? body with
    | some c => emit .char (some (.letra (Int32.ofInt c.toNat)))
    | none => refuse .invalidCharacter
  else refuse .unterminatedCharacter

def escape (budget : Nat) : Sweep PUnit := do
  if ← closing budget (byte ']') then do
    let body ← content
    match body with
    | [] =>
      if ← accept (byte ']') then emit .escape (some (.pulong [byte ']']))
      else emit .escape (some (.pulong []))
    | [b] => emit .escape (some (.pulong [escapeValue b]))
    | _ => refuse .invalidEscape
  else refuse .unterminatedEscape

/-- Digits and a fraction. A segment that starts with a point is a fraction
already. -/
def fraction (budget : Nat) : Sweep Bool := do
  let b ← first
  digits budget
  let point ← peek 0
  let digit ← peek 1
  if b != byte '.' && point == byte '.' && isDigit digit then do
    pass
    digits budget
    pure true
  else pure (b == byte '.')

def numeral (isReal : Bool) : Sweep PUnit := do
  let text ← lexeme
  match if isReal then (Numeral.real? text).map Value.tipik else (Numeral.int64? text).map Value.numero with
  | some v => emit .number (some v)
  | none => refuse .invalidNumber

def number (budget : Nat) : Sweep PUnit := do
  let isReal ← fraction budget
  if ← ahead fun e => e == byte 'e' || e == byte 'E' then do
    pass
    passIf fun b => b == byte '+' || b == byte '-'
    if ← ahead isDigit then do
      digits budget
      numeral true
    else refuse .invalidExponent
  else numeral isReal

/-- The first words of phrases. -/
def phraseStarts : List String := ["KUNG", "ALANG"]

/-- Passes the second word of a phrase. If there is none, the cursor goes back. -/
def secondWord (budget : Nat) (text : Text) : Sweep (Option Kind) := do
  let space ← peek 0
  let letter ← peek 1
  if phraseStarts.any (ofString · == text) && space == 32 && isLetter letter then do
    let s ← state
    pass
    word budget
    let both ← lexeme
    match spelled? phrases both with
    | some kind => pure (some kind)
    | none => do
      goTo s.current
      pure none
  else pure none

def identifier (budget : Nat) : Sweep PUnit := do
  word budget
  let text ← lexeme
  match ← secondWord budget text with
  | some kind => emit kind none
  | none => emit ((spelled? keywords text).getD .identifier) none

/-- The signs by their first byte: what each is with a byte that may follow it,
tried in this order, and what it is without. -/
def signTable : List (Char × List (Char × Kind) × Kind) := [
  ('(', [], .leftParen), (')', [], .rightParen), ('\x7b', [], .leftBrace), ('\x7d', [], .rightBrace),
  (',', [], .comma), (':', [], .colon), ('&', [], .ampersand), ('$', [], .dollar),
  ('+', [('+', .plusPlus), ('=', .plusEqual)], .plus), ('-', [('=', .minusEqual)], .minus),
  ('*', [('=', .starEqual)], .star), ('/', [('=', .slashEqual)], .slash), ('%', [('=', .percentEqual)], .percent),
  ('=', [('=', .equalEqual)], .equal), ('<', [('>', .notEqual), ('=', .lessEqual)], .less),
  ('>', [('=', .greaterEqual)], .greater)]

def sign (kind : Kind) : List (Char × Kind) → Sweep PUnit
  | [] => emit kind none
  | (c, longer) :: more => do
    if ← accept (byte c) then emit longer none
    else sign kind more

/-- Two minus signs are a decrement if a name ends right before them, and also
where an operand is expected and a letter follows. -/
def isDecrement : Sweep Bool := do
  let s ← state
  let letter ← peek 1
  match s.tokens.getLast? with
  | none => pure false
  | some last =>
    if last.kind = .identifier ∧ last.pos.map (· + last.lexeme.length) = some s.start then pure true
    else pure (expectsOperand last.kind && isLetter letter)

def skipCharacter : Sweep PUnit where
  run source s :=
    (goTo (s.start + (front? (source.drop s.start)).elim 1 Char.utf8Size)).run source s

/-- The second of two minus signs, or the rest of a comment. -/
def afterMinus (budget : Nat) : Sweep PUnit := do
  if ← isDecrement then do
    pass
    emit .minusMinus none
  else goRound (inside (· != lineFeed)) pass budget

/-- One segment, by its first byte and the one behind it. -/
def step (budget : Nat) : Sweep PUnit := do
  let b ← advance
  let next ← peek 0
  if b == byte '-' && next == byte '-' then afterMinus budget
  else if b == 32 || b == 13 || b == 9 then pure ⟨⟩
  else if b == lineFeed then do
    emit .newline none
    countLine
  else if b == byte '"' then string budget
  else if b == byte '\'' then char budget
  else if b == byte '[' then escape budget
  else if isDigit b || (b == byte '.' && isDigit next) then number budget
  else if isLetter b then identifier budget
  else
    match signTable.find? (byte ·.1 == b) with
    | some (_, longer, kind) => sign kind longer
    | none => do
      skipCharacter
      refuse .unexpectedCharacter

/-- A part that has to take the cursor forward. -/
def onward (x : Sweep PUnit) : Sweep PUnit := do
  let s ← state
  x
  let s' ← state
  if s.current < s'.current then pure ⟨⟩ else lost

/-- The next segment. -/
def segment (budget : Nat) : Sweep PUnit := do
  mark
  onward (step budget)

/-- The whole source, segment by segment, and the end. -/
def all (budget : Nat) : Sweep PUnit := do
  goRound unfinished (segment budget) budget
  mark
  emit .eof none

/-! ## Places -/

/-- `Stands source start current bytes rest`: from `start` on there are these bytes and
then, from `current` on, the rest. -/
structure Stands (source : Text) (start current : Nat) (bytes rest : Text) : Prop where
  text : source.drop start = bytes ++ rest
  current_eq : current = start + bytes.length
  start_le : start ≤ source.length

section Places

variable {source bytes rest t : Text} {start current : Nat} {b : UInt8}

theorem Stands.drop_current (h : Stands source start current bytes rest) : source.drop current = rest := by
  rw [h.current_eq, ← List.drop_drop, h.text, List.drop_left]

theorem Stands.length_eq (h : Stands source start current bytes rest) : source.length = current + rest.length := by
  have hlength := congrArg List.length h.text
  have hle := h.start_le
  have hcurrent := h.current_eq
  rw [List.length_drop, List.length_append] at hlength
  omega

theorem Stands.getElem?_current (h : Stands source start current bytes rest) (n : Nat) :
    source[current + n]? = rest[n]? := by
  rw [← h.drop_current, List.getElem?_drop]

theorem Stands.move (h : Stands source start current bytes (t ++ rest)) :
    Stands source start (current + t.length) (bytes ++ t) rest where
  text := by rw [h.text, List.append_assoc]
  current_eq := by rw [h.current_eq, List.length_append, Nat.add_assoc]
  start_le := h.start_le

theorem Stands.next (h : Stands source start current bytes (b :: rest)) :
    Stands source start (current + 1) (bytes ++ [b]) rest := Stands.move (t := [b]) h

/-- Behind a closing byte. -/
theorem Stands.enclosed {body : Text} {q : UInt8} (h : Stands source start current [b] (body ++ q :: rest)) :
    Stands source start (current + body.length + 1) (b :: (body ++ [q])) rest := h.move.next

end Places

/-! ## Runs of steps -/

section Runs

variable {source bytes rest : Text} {s : State} {b : UInt8}

theorem run_bind (x : Sweep α) (f : α → Sweep β) (source : Text) (s : State) :
    (x >>= f).run source s =
      match x.run source s with
      | some (a, s) => (f a).run source s
      | none => none := rfl

theorem run_pure (a : α) (source : Text) (s : State) : (pure a : Sweep α).run source s = some (a, s) := rfl

theorem run_bind_of {x : Sweep α} {f : α → Sweep β} {a : α} {s' : State} (h : x.run source s = some (a, s')) :
    (x >>= f).run source s = (f a).run source s' := by rw [run_bind, h]

theorem run_state (f : State → Sweep β) : (state >>= f).run source s = (f s).run source s := rfl

theorem run_atEnd (h : Stands source s.start s.current bytes rest) :
    atEnd.run source s = some (rest.isEmpty, s) := by
  have hlength := h.length_eq
  cases rest with
  | nil => simp [atEnd, hlength]
  | cons b rest => simp [atEnd, hlength]

theorem run_unfinished (source : Text) (s : State) :
    unfinished.run source s = some (decide (s.current < source.length), s) := by
  have hnot : (!decide (source.length ≤ s.current)) = decide (s.current < source.length) := by
    rw [← decide_not, decide_eq_decide, Nat.not_le]
  rw [← hnot]
  rfl

theorem run_peek (h : Stands source s.start s.current bytes rest) (n : Nat) :
    (peek n).run source s = some (rest[n]?.getD 0, s) := by
  simp only [peek, h.getElem?_current]

theorem run_advance (h : Stands source s.start s.current bytes (b :: rest)) :
    advance.run source s = some (b, { s with current := s.current + 1 }) := by
  have hbyte := h.getElem?_current 0
  rw [Nat.add_zero] at hbyte
  simp only [advance, hbyte]
  rfl

theorem run_pass (h : Stands source s.start s.current bytes (b :: rest)) :
    pass.run source s = some (⟨⟩, { s with current := s.current + 1 }) := by
  rw [pass, run_bind_of (run_advance h), run_pure]

theorem run_first (h : Stands source s.start s.current (b :: bytes) rest) : first.run source s = some (b, s) := by
  have hbyte : source[s.start]? = some b := by
    rw [← List.head?_drop, h.text]
    rfl
  simp only [first, hbyte]
  rfl

theorem run_accept (h : Stands source s.start s.current bytes rest) (b : UInt8) :
    (accept b).run source s =
      if rest.head? = some b then some (true, { s with current := s.current + 1 }) else some (false, s) := by
  have hbyte := h.getElem?_current 0
  rw [Nat.add_zero, ← List.head?_eq_getElem?] at hbyte
  simp only [accept, hbyte]

theorem run_goTo {place : Nat} (h : place ≤ source.length) (s : State) :
    (goTo place).run source s = some (⟨⟩, { s with current := place }) := if_pos h

theorem run_lexeme (h : Stands source s.start s.current bytes rest) : lexeme.run source s = some (bytes, s) := by
  have hlength := h.length_eq
  have hcurrent := h.current_eq
  have hbounds : s.start ≤ s.current ∧ s.current ≤ source.length := by omega
  have hbytes : (source.take s.current).drop s.start = bytes := by
    rw [hcurrent, List.drop_take, h.text, Nat.add_sub_cancel_left, List.take_left]
  rw [lexeme, run_state]
  simp only [stretch, hbounds, hbytes, and_self, if_true]

/-- Between a first and a last byte. -/
theorem run_content {body : Text} {first last : UInt8}
    (h : Stands source s.start s.current (first :: (body ++ [last])) rest) :
    content.run source s = some (body, s) := by
  have hlength := h.length_eq
  have hcurrent := h.current_eq
  rw [List.length_cons, List.length_append, List.length_singleton] at hcurrent
  have hbounds : s.start + 1 ≤ s.current - 1 ∧ s.current - 1 ≤ source.length := by omega
  have hsize : s.current - 1 - (s.start + 1) = body.length := by omega
  have hbody : (source.take (s.current - 1)).drop (s.start + 1) = body := by
    rw [List.drop_take, ← List.drop_drop, h.text, hsize]
    simp
  rw [content, run_state]
  simp only [stretch, hbounds, hbody, and_self, if_true]

theorem run_emit (h : Stands source s.start s.current bytes rest) (kind : Kind) (literal : Option Value) :
    (emit kind literal).run source s = some (⟨⟩, { s with
      tokens := s.tokens ++ [{ kind := kind, lexeme := bytes, literal := literal, line := s.line,
                               pos := some s.start }] }) := by
  rw [emit, run_bind_of (run_lexeme h)]
  rfl

theorem run_refuse (h : Stands source s.start s.current bytes rest) (fault : ScanFault) :
    (refuse fault).run source s = some (⟨⟩, { s with
      reports := s.reports ++ [{ phase := .reading, line := s.line,
                                 place := (" at '" : String) ++ bytes.takeWhile (· != lineFeed) ++ ("'" : String),
                                 message := fault.message }] }) := by
  rw [refuse, run_bind_of (run_lexeme h)]
  rfl

end Runs

/-! ## Runs of loops -/

section Loops

variable {source bytes t rest : Text} {s : State} {p : UInt8 → Bool} {bound : Nat}

/-- The test asks whether there is a next byte in a class. -/
def Tests (source : Text) (test : Sweep Bool) (p : UInt8 → Bool) : Prop :=
  ∀ s bytes rest, Stands source s.start s.current bytes rest → test.run source s = some (rest.head?.any p, s)

/-- Zero is taken for the end. -/
theorem tests_ahead (hp : p 0 = false) : Tests source (ahead p) p := by
  intro s bytes rest h
  rw [ahead, run_bind_of (run_peek h 0), run_pure]
  cases rest with
  | nil => exact congrArg (fun b => some (b, s)) hp
  | cons b rest => rfl

theorem tests_inside : Tests source (inside p) p := by
  intro s bytes rest h
  rw [inside, run_bind_of (run_atEnd h)]
  cases rest with
  | nil => rfl
  | cons b rest =>
    rw [if_neg (by simp), ahead, run_bind_of (run_peek h 0)]
    rfl

theorem Tests.run_then {test : Sweep Bool} {x y : Sweep α} (htest : Tests source test p)
    (h : Stands source s.start s.current bytes rest) (hp : rest.head?.any p = true) :
    (test >>= fun holds => if holds = true then x else y).run source s = x.run source s := by
  rw [run_bind_of (htest s bytes rest h), hp, if_pos rfl]

theorem Tests.run_else {test : Sweep Bool} {x y : Sweep α} (htest : Tests source test p)
    (h : Stands source s.start s.current bytes rest) (hp : rest.head?.any p = false) :
    (test >>= fun holds => if holds = true then x else y).run source s = y.run source s := by
  rw [run_bind_of (htest s bytes rest h), hp, if_neg Bool.false_ne_true]

/-- A loop takes the bytes of a class one by one. -/
theorem run_goRound {test : Sweep Bool} {round : Sweep PUnit} {next : State → UInt8 → State}
    (htest : Tests source test p)
    (hround : ∀ s bytes b rest, Stands source s.start s.current bytes (b :: rest) →
      round.run source s = some (⟨⟩, next s b))
    (hnext : ∀ s b, (next s b).start = s.start ∧ (next s b).current = s.current + 1)
    (h : Stands source s.start s.current bytes (t ++ rest)) (ht : ∀ c ∈ t, p c = true)
    (hrest : ∀ c ∈ rest.head?, p c = false) (hbound : t.length < bound) :
    (goRound test round bound).run source s = some (⟨⟩, t.foldl next s) := by
  induction t generalizing s bytes bound with
  | nil =>
    obtain ⟨bound, rfl⟩ := Nat.exists_eq_add_one.2 hbound
    have hstop : rest.head?.any p = false := by
      cases rest with
      | nil => rfl
      | cons c rest => exact hrest c rfl
    rw [goRound, run_bind_of (htest s bytes rest h), hstop]
    rfl
  | cons b t ih =>
    obtain ⟨bound, rfl⟩ := Nat.exists_eq_add_one.2 (Nat.zero_lt_of_lt hbound)
    obtain ⟨hb, ht⟩ := List.forall_mem_cons.1 ht
    have hgo : ((b :: t ++ rest).head?.any p) = true := hb
    obtain ⟨hstart, hcurrent⟩ := hnext s b
    rw [goRound, run_bind_of (htest s bytes _ h), hgo, if_pos rfl, run_bind_of (hround s bytes b _ h)]
    have hstands : Stands source (next s b).start (next s b).current (bytes ++ [b]) (t ++ rest) := by
      rw [hstart, hcurrent]
      exact h.next
    exact ih hstands ht (Nat.lt_of_succ_lt_succ hbound)

theorem run_skip {test : Sweep Bool} (htest : Tests source test p)
    (h : Stands source s.start s.current bytes (t ++ rest)) (ht : ∀ c ∈ t, p c = true)
    (hrest : ∀ c ∈ rest.head?, p c = false) (hbound : t.length < bound) :
    (goRound test pass bound).run source s = some (⟨⟩, { s with current := s.current + t.length }) := by
  rw [run_goRound htest (fun s bytes b rest h => run_pass h) (fun s b => ⟨rfl, rfl⟩) h ht hrest hbound]
  have hfold (t : Text) (s : State) :
      t.foldl (fun s _ => { s with current := s.current + 1 }) s = { s with current := s.current + t.length } := by
    induction t generalizing s with
    | nil => rfl
    | cons b t ih =>
      rw [List.foldl_cons, ih, List.length_cons, Nat.add_right_comm, Nat.add_assoc]
  rw [hfold]

end Loops

end Sweep

end BisayaPlus
